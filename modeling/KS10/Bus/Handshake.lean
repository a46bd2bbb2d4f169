import KS10.Bus.Link

/-!
# Do the processor and the adapter agree on an IO cycle?

One IO cycle to a device of the adapter, from the clock at which NXD and UBANXD are
both idle and the processor presents it (`Link.Opens`), under any acknowledges of
the device and any grants of the bus to DMA and to the console.  The cycle ends in
NXD at the first state that is neither idle nor counting (`Link.CpuEnds`), and in
UBANXD likewise once it has left its null state (`Link.UbaEnds`).

The adapter starts counting when the arbiter forwards the request to it, which may
be later than the processor, and its acknowledge reaches the processor one clock
after the device's, if the processor has the bus then.  `Link.Meets` states when
both counts nevertheless come to the same end.
-/

namespace KS10

open Clocked

namespace Link

variable {a : Adapter} {s₀ s : Link} {i : In}

/-! ## The bus while the processor waits -/

/-- Neither the console nor a DMA transfer asks for the bus. -/
def free (i : In) : Bool :=
  !i.cslReqI && !i.ubaReqI 0 && !i.ubaReqI 1 && !i.ubaReqI 2 && !i.ubaReqI 3

/-- The arbiter forwards a request to the adapters, the console's or the waiting
processor's. -/
def forwards (i : In) : Bool := i.cslReqI || free i

/-- No unit but the adapter acknowledges the processor's cycle, and the console does
not use the adapter. -/
structure Quiet (a : Adapter) (i : In) : Prop where
  rst : i.rst = false
  mem : free i = true → i.memAckI = false
  csl : free i = true → i.cslAckI = false
  other : free i = true → ∀ m, m ≠ a.port → i.otherAckI m = false
  cslUba : i.cslReqI = true → Uba.ubaReq a.conf a.regs i.cslAddrI = false
  cslDev : i.cslReqI = true → Uba.devReq a.conf a.regs i.cslAddrI = false
  cslWru : i.cslReqI = true → Uba.wruRead i.cslAddrI = false

/-- Both timers are idle and the processor presents an IO cycle to a device of the
adapter. -/
structure Opens (a : Adapter) (s : Link) : Prop where
  nxd : s.nxd.state = .idle
  uba : s.uba.state = .null
  req : s.cpuReqO = true
  dev : Uba.devReq a.conf a.regs s.cpuAddrO = true

/-- The bus outputs of the processor are those of the open cycle. -/
structure Held (s₀ s : Link) : Prop where
  req : s.cpuReqO = true
  addr : s.cpuAddrO = s₀.cpuAddrO

theorem devReq_flags {c : Uba.Conf} {r : Uba.Regs} {addr : BitVec 36}
    (h : Uba.devReq c r addr = true) :
    Bus.busIo addr = true ∧ Bus.busWru addr = false ∧ Uba.ubaReq c r addr = false := by
  simp only [Uba.devReq, Uba.addressed, Uba.vectRead, Uba.ubaReq, Bool.or_eq_true,
    Bool.and_eq_true, Bool.not_eq_true'] at h ⊢
  rcases h with ⟨⟨⟨⟨⟨⟨⟨_, hio⟩, _⟩, hwru⟩, _⟩, _⟩, hown⟩, hmr⟩ | ⟨⟨⟨⟨⟨_, hio⟩, _⟩, hwru⟩, hvect⟩, _⟩
  · simp [hio, hwru, hown, hmr]
  · simp [hio, hwru, hvect]

theorem devReq_wruRead {c : Uba.Conf} {r : Uba.Regs} {addr : BitVec 36}
    (h : Uba.devReq c r addr = true) : Uba.wruRead addr = false := by
  simp [Uba.wruRead, (devReq_flags h).2.1]

theorem devReq_zero (c : Uba.Conf) (r : Uba.Regs) : Uba.devReq c r 0 = false := by
  have hread : Bus.busRead 0#36 = false := by decide
  have hwrite : Bus.busWrite 0#36 = false := by decide
  simp [Uba.devReq, Uba.addressed, Uba.vectRead, hread, hwrite]

theorem ubaReq_zero (c : Uba.Conf) (r : Uba.Regs) : Uba.ubaReq c r 0 = false := by
  have hread : Bus.busRead 0#36 = false := by decide
  have hwrite : Bus.busWrite 0#36 = false := by decide
  simp [Uba.ubaReq, Uba.addressed, hread, hwrite]

theorem Held.grant (h : Held s₀ s) (i : In) :
    (free i = true ∧ Arb.grant (s.reqs i) = .cpu) ∨
    (i.cslReqI = true ∧ free i = false ∧ Arb.grant (s.reqs i) = .csl) ∨
    (i.cslReqI = false ∧ free i = false ∧ ∃ n, Arb.grant (s.reqs i) = .uba n) := by
  simp only [Arb.grant, reqs, h.req, free]
  cases i.cslReqI with
  | true => simp
  | false =>
      cases i.ubaReqI 0 with
      | true => simp
      | false =>
          cases i.ubaReqI 1 with
          | true => simp
          | false =>
              cases i.ubaReqI 2 with
              | true => simp
              | false =>
                  cases i.ubaReqI 3 with
                  | true => simp
                  | false => simp

theorem Held.busReqI_eq (h : Held s₀ s) (i : In) : s.busReqI i = forwards i := by
  simp only [busReqI, Arb.ubaReqO, forwards]
  rcases h.grant i with ⟨hf, hg⟩ | ⟨hc, hf, hg⟩ | ⟨hc, hf, n, hg⟩
  · simp [hf, hg]
  · simp [hc, hg]
  · simp [hc, hf, hg]

/-- While the processor waits, the adapter's bus carries the open cycle exactly when
the bus is free. -/
theorem Held.decode (h : Held s₀ s) (hq : Quiet a i)
    (hdev : Uba.devReq a.conf a.regs s₀.cpuAddrO = true) :
    Uba.devReq a.conf a.regs (s.busAddrI a i) = free i ∧
    Uba.ubaReq a.conf a.regs (s.busAddrI a i) = false ∧
    Uba.wruRead (s.busAddrI a i) = (i.cslReqI && Uba.wruRead i.cslAddrI) := by
  have hwru : Uba.wruRead 0 = false := by decide
  simp only [busAddrI, Arb.ubaAddrO, arb]
  rcases h.grant i with ⟨hf, hg⟩ | ⟨hc, hf, hg⟩ | ⟨hc, hf, n, hg⟩
  · have hcsl : i.cslReqI = false := by
      simp only [free, Bool.and_eq_true, Bool.not_eq_true'] at hf
      exact hf.1.1.1.1
    simp only [hg, h.addr, hf, hcsl, Bool.false_and]
    exact ⟨hdev, (devReq_flags hdev).2.2, devReq_wruRead hdev⟩
  · simp only [hg, hf, hc, Bool.true_and]
    exact ⟨hq.cslDev hc, hq.cslUba hc, trivial⟩
  · simp only [hg, hf, hc, Bool.false_and]
    exact ⟨devReq_zero a.conf a.regs, ubaReq_zero a.conf a.regs, hwru⟩

/-- The processor sees an acknowledge when the adapter acknowledges on a free bus. -/
theorem Held.cpuAckI_eq (h : Held s₀ s) (hq : Quiet a i) :
    s.cpuAckI a i = (free i && s.uba.state == .ack) := by
  simp only [cpuAckI, Arb.cpuAckO, arb]
  rcases h.grant i with ⟨hf, hg⟩ | ⟨hc, hf, hg⟩ | ⟨hc, hf, n, hg⟩
  · have hbus : s.busReqI i = true := by
      rw [h.busReqI_eq]
      simp [forwards, hf]
    have hport : ∀ m, (if m = a.port then s.uba.busAckO (s.busReqI i) else i.otherAckI m) =
        (m == a.port && s.uba.state == .ack) := by
      intro m
      by_cases hm : m = a.port
      · simp [hm, UbaNxd.busAckO, hbus]
      · simp [hm, hq.other hf m hm]
    simp only [hg, hf, hq.mem hf, hq.csl hf, hport]
    have hsome : ∀ p : Fin 4, (0 = p ∨ 1 = p) ∨ 2 = p ∨ 3 = p := by decide
    rcases hsome a.port with (hp | hp) | hp | hp <;>
      simp [← hp]
  · simp [hg, hf]
  · simp [hg, hf]

/-! ## One clock of the open cycle -/

/-- The adapter's state after a clock at which the processor waits. -/
def ubaStep (state : UbaNxd.State) (i : In) : UbaNxd.State :=
  match state with
  | .null => if free i then if i.devAckI then .ack else .cnt 0 else .null
  | .cnt k => if free i && i.devAckI then .ack else UbaNxd.counted k
  | .nxd => .null
  | .ack => if forwards i then .ack else .null

/-- The adapter counts for a device, not for itself. -/
def ForDevice (u : UbaNxd) : Prop := ∀ k, u.state = .cnt k → u.uba = false

theorem Held.uba_next (h : Held s₀ s) (hq : Quiet a i)
    (hdev : Uba.devReq a.conf a.regs s₀.cpuAddrO = true) (hfor : ForDevice s.uba) :
    (next a s i).uba.state = ubaStep s.uba.state i ∧ ForDevice (next a s i).uba := by
  obtain ⟨hd, hu, hw⟩ := h.decode hq hdev
  have hwru : (forwards i && Uba.wruRead (s.busAddrI a i) &&
      Uba.wruAck a.regs (s.busAddrI a i)) = false := by
    rw [hw]
    cases hc : i.cslReqI with
    | false => simp
    | true => simp [hq.cslWru hc]
  simp only [next, UbaNxd.next, ubaIn, hq.rst, hd, hu, hwru, devAck, h.busReqI_eq, ForDevice]
  cases hs : s.uba.state with
  | null =>
      cases hf : free i with
      | true => cases hdack : i.devAckI <;> simp [ubaStep, forwards, hf, hdack]
      | false => simp [ubaStep, hs, hf]
  | cnt k =>
      have hflag := hfor k hs
      simp [ubaStep, hflag]
  | nxd => simp [ubaStep]
  | ack => cases hw : forwards i <;> simp [ubaStep, hs, hw]

/-- In the idle state and while it counts, NXD waits for the acknowledge. -/
def nxdStep (state : Nxd.State) : Nxd.State :=
  match state with
  | .idle => .cnt 0
  | .cnt k => Nxd.counted k
  | s => s

theorem Held.nxd_next (h : Held s₀ s) (hq : Quiet a i)
    (hdev : Uba.devReq a.conf a.regs s₀.cpuAddrO = true) (hwait : s.nxd.waits = true)
    (hack : s.cpuAckI a i = false) :
    (next a s i).nxd.state = nxdStep s.nxd.state ∧ Held s₀ (next a s i) := by
  have hio : Bus.busIo s.cpuAddrO = true := by
    rw [h.addr]
    exact (devReq_flags hdev).1
  have hstart : Nxd.starts (s.nxdIn a i) = true := by
    simp [Nxd.starts, nxdIn, hio, h.req, hack]
  have hiowait : s.ioWait a i = true := by
    simp [ioWait, Nxd.ioWait, hstart, hwait]
  refine ⟨?_, ?_, ?_⟩
  · simp only [next, Nxd.next, nxdIn, hq.rst] at hstart ⊢
    simp only [Nxd.waits] at hwait
    cases hs : s.nxd.state with
    | idle => simp [Nxd.step, hs, hstart, nxdStep]
    | cnt k => simp [Nxd.step, hs, hack, nxdStep]
    | ackIo1 => simp [hs] at hwait
    | ackIo2 => simp [hs] at hwait
    | ackWru => simp [hs] at hwait
    | ackVec => simp [hs] at hwait
    | noAck => simp [hs] at hwait
  · simp [next, hiowait, h.req]
  · simp [next, hiowait, h.addr]

/-- The states in which NXD has seen the acknowledge. -/
def acknowledged (state : Nxd.State) : Prop :=
  state = .ackIo1 ∨ state = .ackWru ∨ state = .ackVec

theorem nxd_next_acked (hrst : i.rst = false) {k : Fin 10} (hs : s.nxd.state = .cnt k)
    (hack : s.cpuAckI a i = true) : acknowledged (next a s i).nxd.state := by
  have hnext : (next a s i).nxd.state = s.nxd.acked := by
    simp [next, Nxd.next, nxdIn, hrst, Nxd.step, hs, hack]
  rw [hnext, Nxd.acked, acknowledged]
  cases s.nxd.wru <;> cases s.nxd.vect <;> simp

/-- A counting adapter decides on the device's acknowledge, whoever has the bus. -/
theorem uba_next_cnt (hrst : i.rst = false) (hfor : ForDevice s.uba) {k : Fin 10}
    (hs : s.uba.state = .cnt k) :
    (next a s i).uba.state = (if s.devAck a i then .ack else UbaNxd.counted k) ∧
    ForDevice (next a s i).uba := by
  have hflag := hfor k hs
  simp [next, UbaNxd.next, ubaIn, hrst, hs, hflag, ForDevice]

/-! ## The adapter as the inputs drive it

Until the acknowledge reaches the processor the adapter's state is a function of the
inputs alone. -/

def ubaRun (i : Nat → In) : Nat → UbaNxd.State
  | 0 => .null
  | t + 1 => ubaStep (ubaRun i t) (i t)

/-- The clocks that the adapter has counted. -/
def rank : UbaNxd.State → Nat
  | .null => 0
  | .cnt k => k + 1
  | .nxd => 11
  | .ack => 0

theorem rank_counted : ∀ k : Fin 10, rank (UbaNxd.counted k) ≤ rank (.cnt k) + 1 := by decide

def nxdRun : Nat → Nxd.State
  | 0 => .idle
  | t + 1 => nxdStep (nxdRun t)

theorem nxdRun_cnt : ∀ t, t < 10 → ∃ k, nxdRun (t + 1) = .cnt k := by decide

theorem nxdRun_waits : ∀ t, t < 11 → nxdRun t = .idle ∨ ∃ k, nxdRun t = .cnt k := by decide

/-- The adapter's acknowledge reaches the processor at clock `t`. -/
def Reaches (i : Nat → In) (t : Nat) : Prop := free (i t) = true ∧ ubaRun i t = .ack

/-- The device acknowledges at clock `u`, the bus is free at clock `t`, and the
arbiter forwards requests in between. -/
structure Passes (i : Nat → In) (u t : Nat) : Prop where
  lt : u < t
  asked : free (i u) = true
  acked : (i u).devAckI = true
  kept : ∀ v, u < v → v < t → forwards (i v) = true
  free : free (i t) = true

section Inputs

variable {i : Nat → In}

theorem rank_ubaStep (state : UbaNxd.State) (i : In) :
    rank (ubaStep state i) ≤ rank state + 1 := by
  cases state with
  | null =>
      simp only [ubaStep]
      split
      · split <;> simp [rank]
      · simp [rank]
  | cnt k =>
      simp only [ubaStep]
      split
      · simp [rank]
      · exact rank_counted k
  | nxd => simp [ubaStep, rank]
  | ack =>
      simp only [ubaStep]
      split <;> simp [rank]

theorem rank_ubaRun (i : Nat → In) (t : Nat) : rank (ubaRun i t) ≤ t := by
  induction t with
  | zero => exact Nat.le_refl 0
  | succ t ih => exact Nat.le_trans (rank_ubaStep _ _) (Nat.succ_le_succ ih)

/-- The adapter acknowledges because a device just did, or still. -/
theorem ubaStep_ack {state : UbaNxd.State} {i : In} (h : ubaStep state i = .ack) :
    (free i = true ∧ i.devAckI = true) ∨ (state = .ack ∧ forwards i = true) := by
  cases state with
  | null =>
      simp only [ubaStep] at h
      split at h
      · split at h
        · exact Or.inl ⟨‹_›, ‹_›⟩
        · cases h
      · cases h
  | cnt k =>
      simp only [ubaStep] at h
      split at h
      · exact Or.inl (by simpa using ‹(free i && i.devAckI) = true›)
      · simp only [UbaNxd.counted] at h
        split at h <;> cases h
  | nxd => cases h
  | ack =>
      simp only [ubaStep] at h
      split at h
      · exact Or.inr ⟨rfl, ‹_›⟩
      · cases h

/-- The adapter acknowledges because the device did, and the request stayed. -/
theorem ubaRun_ack {t : Nat} (h : ubaRun i t = .ack) :
    ∃ u, u < t ∧ free (i u) = true ∧ (i u).devAckI = true ∧
      ∀ v, u < v → v < t → forwards (i v) = true := by
  induction t with
  | zero => cases h
  | succ t ih =>
      rcases ubaStep_ack h with ⟨hf, hd⟩ | ⟨hack, hfwd⟩
      · exact ⟨t, Nat.lt_succ_self t, hf, hd, fun v h₁ h₂ => by omega⟩
      · obtain ⟨u, hu, hf, hd, hkept⟩ := ih hack
        refine ⟨u, Nat.lt_succ_of_lt hu, hf, hd, fun v h₁ h₂ => ?_⟩
        rcases Nat.lt_succ_iff_lt_or_eq.mp h₂ with hlt | rfl
        · exact hkept v h₁ hlt
        · exact hfwd

theorem ubaRun_acked {u : Nat} (hu : u < 10) (hf : free (i u) = true)
    (hd : (i u).devAckI = true) : ubaRun i (u + 1) = .ack := by
  have hbound := rank_ubaRun i u
  rw [ubaRun]
  cases hs : ubaRun i u with
  | null => simp [ubaStep, hf, hd]
  | cnt k => simp [ubaStep, hf, hd]
  | nxd =>
      rw [hs] at hbound
      simp only [rank] at hbound
      omega
  | ack => simp [ubaStep, forwards, hf]

/-- The acknowledge reaches the processor exactly when the device's acknowledge
passes through. -/
theorem reaches_iff_passes : (∃ t, t ≤ 10 ∧ Reaches i t) ↔ ∃ u t, t ≤ 10 ∧ Passes i u t := by
  constructor
  · rintro ⟨t, ht, hfree, hack⟩
    obtain ⟨u, hu, hf, hd, hkept⟩ := ubaRun_ack hack
    exact ⟨u, t, ht, hu, hf, hd, hkept, hfree⟩
  · rintro ⟨u, t, ht, h⟩
    refine ⟨t, ht, h.free, ?_⟩
    have hfirst := ubaRun_acked (by have := h.lt; omega) h.asked h.acked
    have hstays : ∀ n, u + 1 + n ≤ t → ubaRun i (u + 1 + n) = .ack := by
      intro n
      induction n with
      | zero => exact fun _ => hfirst
      | succ n ih =>
          intro hn
          have hprev := ih (by omega)
          have hfwd := h.kept (u + 1 + n) (by omega) (by omega)
          rw [← Nat.add_assoc, ubaRun, hprev]
          simp [ubaStep, hfwd]
    obtain ⟨n, rfl⟩ : ∃ n, t = u + 1 + n := ⟨t - (u + 1), by have := h.lt; omega⟩
    exact hstays n (Nat.le_refl _)

/-- The adapter has not left its null state before the bus is first free. -/
theorem ubaRun_null {t : Nat} (h : ∀ v, v < t → free (i v) = false) : ubaRun i t = .null := by
  induction t with
  | zero => rfl
  | succ t ih =>
      have hprev := ih fun v hv => h v (Nat.lt_succ_of_lt hv)
      simp [ubaRun, hprev, ubaStep, h t (Nat.lt_succ_self t)]

end Inputs

/-! ## Ends of the cycle -/

variable (a) in
/-- The machine after `t` clocks. -/
def linkAt (s : Link) (i : Nat → In) (t : Nat) : Link := run (next a) s i t

/-- NXD leaves its count into a state with the property `p`. -/
def CpuEnds (a : Adapter) (s : Link) (i : Nat → In) (p : Nxd.State → Prop) : Prop :=
  ∃ e, 0 < e ∧ (∀ v, 0 < v → v < e → ∃ k, (linkAt a s i v).nxd.state = .cnt k) ∧
    p (linkAt a s i e).nxd.state ∧ ∀ k, (linkAt a s i e).nxd.state ≠ .cnt k

/-- UBANXD takes the cycle up while the processor waits, and its count ends in the
state `o`. -/
structure UbaEndsAt (a : Adapter) (s : Link) (i : Nat → In) (o : UbaNxd.State) (g e : Nat) :
    Prop where
  start : g ≤ 10
  after : g < e
  null : ∀ v, v ≤ g → (linkAt a s i v).uba.state = .null
  counts : ∀ v, g < v → v < e → ∃ k, (linkAt a s i v).uba.state = .cnt k
  ends : (linkAt a s i e).uba.state = o

def UbaEnds (a : Adapter) (s : Link) (i : Nat → In) (o : UbaNxd.State) : Prop :=
  ∃ g e, UbaEndsAt a s i o g e

/-- The processor ends the cycle as acknowledged exactly when the adapter does, and
without acknowledge exactly when the adapter sets its error bit. -/
def Agree (a : Adapter) (s : Link) (i : Nat → In) : Prop :=
  (CpuEnds a s i acknowledged ↔ UbaEnds a s i .ack) ∧
  (CpuEnds a s i (· = .noAck) ↔ UbaEnds a s i .nxd)

/-- The cycle reaches the adapter at clock `g`, while the processor waits, and either
a device's acknowledge passes through to the processor in time, or no device
acknowledges while the adapter counts. -/
structure MeetsAt (a : Adapter) (s : Link) (i : Nat → In) (g : Nat) : Prop where
  start : g ≤ 10
  free : free (i g) = true
  first : ∀ v, v < g → Link.free (i v) = false
  ends : (∃ u t, t ≤ 10 ∧ Passes i u t) ∨
    ∀ u, g ≤ u → u ≤ g + 10 → (linkAt a s i u).devAck a (i u) = false

def Meets (a : Adapter) (s : Link) (i : Nat → In) : Prop := ∃ g, MeetsAt a s i g

section Cycle

variable {s : Link} {i : Nat → In}

theorem CpuEnds.unique {p q : Nxd.State → Prop} (hp : CpuEnds a s i p) (hq : CpuEnds a s i q) :
    ∃ state, p state ∧ q state := by
  obtain ⟨e, he, hcnt, hend, hleft⟩ := hp
  obtain ⟨e', he', hcnt', hend', hleft'⟩ := hq
  rcases Nat.lt_trichotomy e e' with hlt | heq | hlt
  · obtain ⟨k, hk⟩ := hcnt' e he hlt
    exact absurd hk (hleft k)
  · subst heq
    exact ⟨_, hend, hend'⟩
  · obtain ⟨k, hk⟩ := hcnt e' he' hlt
    exact absurd hk (hleft' k)

theorem UbaEndsAt.start_le {o o' : UbaNxd.State} {g e g' e' : Nat} (h : UbaEndsAt a s i o g e)
    (h' : UbaEndsAt a s i o' g' e') (ho : o ≠ .null) : g' ≤ g := by
  rcases Nat.lt_or_ge g g' with hlt | hge
  · exfalso
    have hnull := h'.null (g + 1) hlt
    rcases Nat.lt_or_ge (g + 1) e with hin | hend
    · obtain ⟨k, hk⟩ := h.counts (g + 1) (Nat.lt_succ_self g) hin
      rw [hnull] at hk
      cases hk
    · have heq : g + 1 = e := Nat.le_antisymm h.after hend
      rw [heq, h.ends] at hnull
      exact ho hnull
  · exact hge

theorem UbaEndsAt.end_le {o o' : UbaNxd.State} {g e e' : Nat} (h : UbaEndsAt a s i o g e)
    (h' : UbaEndsAt a s i o' g e') (ho : ∀ k, o ≠ .cnt k) : e' ≤ e := by
  rcases Nat.lt_or_ge e e' with hlt | hge
  · obtain ⟨k, hk⟩ := h'.counts e h.after hlt
    rw [h.ends] at hk
    exact absurd hk (ho k)
  · exact hge

theorem UbaEnds.not_both : ¬ (UbaEnds a s i .ack ∧ UbaEnds a s i .nxd) := by
  rintro ⟨⟨g, e, h⟩, ⟨g', e', h'⟩⟩
  have hg : g' = g := Nat.le_antisymm (h.start_le h' nofun) (h'.start_le h nofun)
  subst hg
  have he : e' = e := Nat.le_antisymm (h.end_le h' nofun) (h'.end_le h nofun)
  subst he
  have hends := h.ends.symm.trans h'.ends
  cases hends

/-- What is known at clock `t` while no acknowledge has reached the processor. -/
structure Waiting (a : Adapter) (s : Link) (i : Nat → In) (t : Nat) : Prop where
  held : Held s (linkAt a s i t)
  nxd : (linkAt a s i t).nxd.state = nxdRun t
  uba : (linkAt a s i t).uba.state = ubaRun i t
  device : ForDevice (linkAt a s i t).uba

variable (hopen : Opens a s) (hquiet : ∀ t, t ≤ 10 → Quiet a (i t))
include hopen hquiet

theorem waiting {t : Nat} (ht : t ≤ 11) (hno : ∀ v, v < t → ¬ Reaches i v) :
    Waiting a s i t := by
  induction t with
  | zero =>
      refine ⟨⟨hopen.req, rfl⟩, hopen.nxd, hopen.uba, ?_⟩
      intro k hk
      rw [show (linkAt a s i 0).uba.state = .null from hopen.uba] at hk
      cases hk
  | succ t ih =>
      have h := ih (by omega) fun v hv => hno v (Nat.lt_succ_of_lt hv)
      have hq := hquiet t (by omega)
      have hack : (linkAt a s i t).cpuAckI a (i t) = false := by
        rw [h.held.cpuAckI_eq hq, h.uba]
        have hnot := hno t (Nat.lt_succ_self t)
        rw [Reaches] at hnot
        cases hf : free (i t) with
        | false => rfl
        | true =>
            have hne : ubaRun i t ≠ .ack := fun heq => hnot ⟨hf, heq⟩
            simp [hne]
      have hwaits : (linkAt a s i t).nxd.waits = true := by
        rw [Nxd.waits, h.nxd]
        rcases nxdRun_waits t (by omega) with hidle | ⟨k, hk⟩
        · rw [hidle]
        · rw [hk]
      obtain ⟨huba, hdev⟩ := h.held.uba_next hq hopen.dev h.device
      obtain ⟨hnxd, hheld⟩ := h.held.nxd_next hq hopen.dev hwaits hack
      refine ⟨hheld, ?_, ?_, hdev⟩
      · exact hnxd.trans (by rw [h.nxd, nxdRun])
      · exact huba.trans (by rw [h.uba, ubaRun])

theorem waiting_devAck {t : Nat} (ht : t ≤ 10) (h : Waiting a s i t) :
    (linkAt a s i t).devAck a (i t) = (free (i t) && (i t).devAckI) := by
  have hdecode := (h.held.decode (hquiet t ht) hopen.dev).1
  simp only [devAck, hdecode]

variable (hrst : ∀ t, (i t).rst = false)
include hrst

/-- From the clock `g` at which the adapter takes the cycle up, it counts as long as
no device acknowledges. -/
theorem counts_from {g : Nat} (hg : g ≤ 10) (hfree : free (i g) = true)
    (hnull : ubaRun i g = .null) (hwait : Waiting a s i g) {j : Nat} (hj : j ≤ 9)
    (hno : ∀ u, g ≤ u → u ≤ g + j → (linkAt a s i u).devAck a (i u) = false) :
    (∃ k : Fin 10, k.val = j ∧ (linkAt a s i (g + 1 + j)).uba.state = .cnt k) ∧
    ForDevice (linkAt a s i (g + 1 + j)).uba := by
  induction j with
  | zero =>
      obtain ⟨huba, hdev⟩ := hwait.held.uba_next (hquiet g hg) hopen.dev hwait.device
      refine ⟨⟨0, rfl, ?_⟩, hdev⟩
      have hack := hno g (Nat.le_refl g) (Nat.le_refl g)
      rw [waiting_devAck hopen hquiet hg hwait, hfree, Bool.true_and] at hack
      refine huba.trans ?_
      rw [hwait.uba, hnull]
      simp [ubaStep, hfree, hack]
  | succ j ih =>
      obtain ⟨⟨k, hk, hs⟩, hfor⟩ := ih (by omega) fun u h₁ h₂ => hno u h₁ (by omega)
      obtain ⟨huba, hdev⟩ := uba_next_cnt (hrst (g + 1 + j)) hfor hs
      have hack := hno (g + 1 + j) (by omega) (by omega)
      have hlast : k ≠ 9 := by
        intro h9
        have hval : k.val = 9 := congrArg Fin.val h9
        omega
      refine ⟨⟨⟨j + 1, by omega⟩, rfl, ?_⟩, hdev⟩
      refine huba.trans ?_
      rw [hack]
      simp only [Bool.false_eq_true, if_false, UbaNxd.counted, hlast]
      congr 1
      apply Fin.ext
      rw [Fin.val_add, hk]
      exact Nat.mod_eq_of_lt (by omega)

/-- How the adapter ends a cycle that it takes up at clock `g`. -/
theorem uba_ends {g : Nat} (hg : g ≤ 10) (hfree : free (i g) = true)
    (hnull : ∀ v, v ≤ g → (linkAt a s i v).uba.state = .null) (hwait : Waiting a s i g) :
    ((∀ u, g ≤ u → u ≤ g + 10 → (linkAt a s i u).devAck a (i u) = false) →
      UbaEnds a s i .nxd) ∧
    ((∃ u, g ≤ u ∧ u ≤ g + 10 ∧ (linkAt a s i u).devAck a (i u) = true) →
      UbaEnds a s i .ack) := by
  have hrun : ubaRun i g = .null := hwait.uba.symm.trans (hnull g (Nat.le_refl g))
  have hcount : ∀ j, j ≤ 9 →
      (∀ u, g ≤ u → u ≤ g + j → (linkAt a s i u).devAck a (i u) = false) →
      (∃ k : Fin 10, k.val = j ∧ (linkAt a s i (g + 1 + j)).uba.state = .cnt k) ∧
      ForDevice (linkAt a s i (g + 1 + j)).uba :=
    fun j hj hno => counts_from hopen hquiet hrst hg hfree hrun hwait hj hno
  constructor
  · intro hno
    refine ⟨g, g + 11, hg, by omega, hnull, ?_, ?_⟩
    · intro v h₁ h₂
      obtain ⟨j, rfl⟩ : ∃ j, v = g + 1 + j := ⟨v - (g + 1), by omega⟩
      obtain ⟨⟨k, _, hk⟩, _⟩ := hcount j (by omega) fun u hu hu' => hno u hu (by omega)
      exact ⟨k, hk⟩
    · obtain ⟨⟨k, hk, hs⟩, hfor⟩ :=
        hcount 9 (Nat.le_refl 9) fun u hu hu' => hno u hu (by omega)
      obtain ⟨huba, _⟩ := uba_next_cnt (hrst (g + 1 + 9)) hfor hs
      have hlast : k = 9 := Fin.ext hk
      refine huba.trans ?_
      rw [hno (g + 1 + 9) (by omega) (by omega)]
      simp [UbaNxd.counted, hlast]
  · rintro ⟨w, hw, hwle, hwack⟩
    -- the first acknowledge of a device ends the count
    obtain ⟨u, ⟨hu, hule, huack⟩, hfirst⟩ := exists_first
      (p := fun u => g ≤ u ∧ u ≤ g + 10 ∧ (linkAt a s i u).devAck a (i u) = true)
      ⟨w, hw, hwle, hwack⟩
    have hbefore : ∀ v, g ≤ v → v < u → (linkAt a s i v).devAck a (i v) = false := by
      intro v h₁ h₂
      have hnot := hfirst v h₂
      cases hv : (linkAt a s i v).devAck a (i v) with
      | false => rfl
      | true => exact (hnot ⟨h₁, by omega, hv⟩).elim
    refine ⟨g, u + 1, hg, by omega, hnull, ?_, ?_⟩
    · intro v h₁ h₂
      obtain ⟨j, rfl⟩ : ∃ j, v = g + 1 + j := ⟨v - (g + 1), by omega⟩
      obtain ⟨⟨k, _, hk⟩, _⟩ := hcount j (by omega) fun x hx hx' => hbefore x hx (by omega)
      exact ⟨k, hk⟩
    · rcases Nat.eq_or_lt_of_le hu with rfl | hlt
      · obtain ⟨huba, _⟩ := hwait.held.uba_next (hquiet g hg) hopen.dev hwait.device
        rw [waiting_devAck hopen hquiet hg hwait, hfree, Bool.true_and] at huack
        refine huba.trans ?_
        rw [hwait.uba, hrun]
        simp [ubaStep, hfree, huack]
      · obtain ⟨j, rfl⟩ : ∃ j, u = g + 1 + j := ⟨u - (g + 1), by omega⟩
        obtain ⟨⟨k, _, hk⟩, hfor⟩ := hcount j (by omega) fun x hx hx' => hbefore x hx (by omega)
        obtain ⟨huba, _⟩ := uba_next_cnt (hrst (g + 1 + j)) hfor hk
        refine huba.trans ?_
        rw [huack]
        rfl

theorem cpu_ends_acked {t : Nat} (ht : t ≤ 10) (hreach : Reaches i t)
    (hno : ∀ v, v < t → ¬ Reaches i v) : CpuEnds a s i acknowledged := by
  have hwait : ∀ v, v ≤ t → Waiting a s i v := fun v hv =>
    waiting hopen hquiet (by omega) fun w hw => hno w (by omega)
  have hcnt : ∀ v, 0 < v → v ≤ t → ∃ k, (linkAt a s i v).nxd.state = .cnt k := by
    intro v h₁ h₂
    obtain ⟨v, rfl⟩ := Nat.exists_eq_succ_of_ne_zero (Nat.pos_iff_ne_zero.mp h₁)
    obtain ⟨k, hk⟩ := nxdRun_cnt v (by omega)
    exact ⟨k, (hwait _ h₂).nxd.trans hk⟩
  have hpos : 0 < t := by
    rcases Nat.eq_zero_or_pos t with rfl | hpos
    · cases hreach.2
    · exact hpos
  have hack : (linkAt a s i t).cpuAckI a (i t) = true := by
    have hw := hwait t (Nat.le_refl t)
    rw [hw.held.cpuAckI_eq (hquiet t ht), hw.uba, hreach.1, hreach.2]
    rfl
  obtain ⟨k, hk⟩ := hcnt t hpos (Nat.le_refl t)
  have hend := nxd_next_acked (hrst t) hk hack
  refine ⟨t + 1, Nat.succ_pos t, fun v h₁ h₂ => hcnt v h₁ (by omega), hend, ?_⟩
  intro j hj
  change acknowledged (linkAt a s i (t + 1)).nxd.state at hend
  rw [hj] at hend
  rcases hend with h | h | h <;> cases h

omit hrst in
theorem cpu_ends_noAck (hno : ∀ v, v ≤ 10 → ¬ Reaches i v) :
    CpuEnds a s i (· = .noAck) := by
  have hwait : ∀ v, v ≤ 11 → Waiting a s i v := fun v hv =>
    waiting hopen hquiet hv fun w hw => hno w (by omega)
  have hend : (linkAt a s i 11).nxd.state = .noAck := (hwait 11 (Nat.le_refl 11)).nxd
  refine ⟨11, by omega, ?_, hend, ?_⟩
  · intro v h₁ h₂
    obtain ⟨v, rfl⟩ := Nat.exists_eq_succ_of_ne_zero (Nat.pos_iff_ne_zero.mp h₁)
    obtain ⟨k, hk⟩ := nxdRun_cnt v (by omega)
    exact ⟨k, (hwait _ (by omega)).nxd.trans hk⟩
  · intro k hk
    rw [hend] at hk
    cases hk

/-- When an acknowledge reaches the processor both sides acknowledge. -/
theorem agree_of_reaches {t : Nat} (ht : t ≤ 10) (hreach : Reaches i t)
    (hno : ∀ v, v < t → ¬ Reaches i v) : Agree a s i ∧ Meets a s i := by
  obtain ⟨u, hu, hf, hd, hkept⟩ := ubaRun_ack hreach.2
  obtain ⟨g, hfree, hbusy⟩ := exists_first (p := fun g => free (i g) = true) ⟨u, hf⟩
  have hfirst : ∀ v, v < g → free (i v) = false := by
    intro v hv
    simpa using hbusy v hv
  have hgu : g ≤ u := Nat.le_of_not_lt fun hlt => hbusy u hlt hf
  have hwait : ∀ v, v ≤ t → Waiting a s i v := fun v hv =>
    waiting hopen hquiet (by omega) fun w hw => hno w (by omega)
  have hnull : ∀ v, v ≤ g → (linkAt a s i v).uba.state = .null := fun v hv =>
    (hwait v (by omega)).uba.trans (ubaRun_null fun w hw => hfirst w (by omega))
  have hack : (linkAt a s i u).devAck a (i u) = true := by
    rw [waiting_devAck hopen hquiet (by omega) (hwait u (by omega)), hf, hd]
    rfl
  have hcpu := cpu_ends_acked hopen hquiet hrst ht hreach hno
  have huba := (uba_ends hopen hquiet hrst (by omega) hfree hnull
    (hwait _ (by omega))).2 ⟨u, hgu, by omega, hack⟩
  refine ⟨⟨⟨fun _ => huba, fun _ => hcpu⟩, ?_, ?_⟩, ?_⟩
  · intro hnoAck
    obtain ⟨state, hstate, rfl⟩ := hcpu.unique hnoAck
    rcases hstate with h | h | h <;> cases h
  · intro hnxd
    exact absurd ⟨huba, hnxd⟩ UbaEnds.not_both
  · exact ⟨g, by omega, hfree, hfirst,
      Or.inl ⟨u, t, ht, hu, hf, hd, hkept, hreach.1⟩⟩

/-- When no acknowledge reaches the processor, the two agree exactly when the adapter
takes the cycle up and no device acknowledges while it counts. -/
theorem agree_of_not_reaches (hno : ∀ v, v ≤ 10 → ¬ Reaches i v) :
    Agree a s i ↔ ∃ g, g ≤ 10 ∧ free (i g) = true ∧ (∀ v, v < g → free (i v) = false) ∧
      ∀ u, g ≤ u → u ≤ g + 10 → (linkAt a s i u).devAck a (i u) = false := by
  have hwait : ∀ v, v ≤ 11 → Waiting a s i v := fun v hv =>
    waiting hopen hquiet hv fun w hw => hno w (by omega)
  have hcpu := cpu_ends_noAck hopen hquiet hno
  constructor
  · rintro ⟨_, hnxd⟩
    obtain ⟨g, e, h⟩ := hnxd.mp hcpu
    have hrun : ∀ v, v ≤ g → ubaRun i v = .null := fun v hv =>
      (hwait v (by have := h.start; omega)).uba.symm.trans (h.null v hv)
    have hstart := h.start
    have hafter := h.after
    have hleft : ubaRun i (g + 1) ≠ .null := by
      intro hnull
      have hnext := (hwait (g + 1) (by omega)).uba.trans hnull
      rcases Nat.lt_or_ge (g + 1) e with hin | hend
      · obtain ⟨k, hk⟩ := h.counts (g + 1) (Nat.lt_succ_self g) hin
        rw [hnext] at hk
        cases hk
      · have heq : g + 1 = e := Nat.le_antisymm hafter hend
        rw [heq, h.ends] at hnext
        cases hnext
    have hfree : free (i g) = true := by
      cases hf : free (i g) with
      | true => rfl
      | false => exact (hleft (by simp [ubaRun, hrun g (Nat.le_refl g), ubaStep, hf])).elim
    have hfirst : ∀ v, v < g → free (i v) = false := by
      intro v hv
      have hnext := hrun (v + 1) hv
      rw [ubaRun, hrun v (Nat.le_of_lt hv)] at hnext
      cases hf : free (i v) with
      | false => rfl
      | true => cases hd : (i v).devAckI <;> simp [ubaStep, hf, hd] at hnext
    have hends := uba_ends hopen hquiet hrst hstart hfree h.null (hwait g (by omega))
    refine ⟨g, hstart, hfree, hfirst, fun u h₁ h₂ => ?_⟩
    cases hack : (linkAt a s i u).devAck a (i u) with
    | false => rfl
    | true => exact (UbaEnds.not_both ⟨hends.2 ⟨u, h₁, h₂, hack⟩, ⟨g, e, h⟩⟩).elim
  · rintro ⟨g, hg, hfree, hfirst, hack⟩
    have hnull : ∀ v, v ≤ g → (linkAt a s i v).uba.state = .null := fun v hv =>
      (hwait v (by omega)).uba.trans (ubaRun_null fun w hw => hfirst w (by omega))
    have hnxd := (uba_ends hopen hquiet hrst hg hfree hnull (hwait g (by omega))).1 hack
    refine ⟨⟨?_, ?_⟩, fun _ => hnxd, fun _ => hcpu⟩
    · intro hacked
      obtain ⟨state, hstate, rfl⟩ := hacked.unique hcpu
      rcases hstate with h | h | h <;> cases h
    · intro huba
      exact absurd ⟨huba, hnxd⟩ UbaEnds.not_both

/-- The two timers end an IO cycle to a device alike if and only if the cycle reaches
the adapter within ten clocks, and either a device's acknowledge passes through to the
processor within ten clocks of the cycle's start, or no device acknowledges while the
adapter counts. -/
theorem timers_agree_iff : Agree a s i ↔ Meets a s i := by
  by_cases hreach : ∃ t, t ≤ 10 ∧ Reaches i t
  · obtain ⟨t, ⟨ht, hr⟩, hfirst⟩ := exists_first hreach
    have hno : ∀ v, v < t → ¬ Reaches i v := fun v hv hr => hfirst v hv ⟨by omega, hr⟩
    obtain ⟨hagree, hmeets⟩ := agree_of_reaches hopen hquiet hrst ht hr hno
    exact ⟨fun _ => hmeets, fun _ => hagree⟩
  · have hno : ∀ v, v ≤ 10 → ¬ Reaches i v := fun v hv hr => hreach ⟨v, hv, hr⟩
    rw [agree_of_not_reaches hopen hquiet hrst hno]
    constructor
    · rintro ⟨g, hg, hfree, hfirst, hack⟩
      exact ⟨g, hg, hfree, hfirst, Or.inr hack⟩
    · rintro ⟨g, hg, hfree, hfirst, hends⟩
      rcases hends with hpass | hack
      · exact absurd (reaches_iff_passes.mpr hpass) hreach
      · exact ⟨g, hg, hfree, hfirst, hack⟩

end Cycle

/-! ## A read from a device register of adapter 1 -/

def unibus1 : Adapter where
  port := 0
  conf := { ubaNum := 1, ubaAddr := 0o763000 }
  regs := { regUbaMr := false, statPih := 0, statPil := 0 }

/-- A physical IO read of the register `0o776700` on adapter 1. -/
def registerAddr : BitVec 36 :=
  BitVec.ofNat 36 (1 <<< 32 ||| 1 <<< 27 ||| 1 <<< 25 ||| 1 <<< 18 ||| 0o776700)

def registerRead : Link where
  nxd := { wru := false, vect := false, busy := false, state := .idle, addr3666 := false }
  uba := { uba := false, state := .null }
  cpuReqO := true
  cpuAddrO := registerAddr

/-- Nobody else uses the bus; a device acknowledges at the clocks `ack`. -/
def aloneWith (ack : Nat → Bool) (t : Nat) : In := { (default : In) with devAckI := ack t }

theorem registerRead_opens : Opens unibus1 registerRead where
  nxd := rfl
  uba := rfl
  req := rfl
  dev := by decide

theorem aloneWith_quiet (ack : Nat → Bool) (t : Nat) : Quiet unibus1 (aloneWith ack t) where
  rst := rfl
  mem := fun _ => rfl
  csl := fun _ => rfl
  other := fun _ _ _ => rfl
  cslUba := nofun
  cslDev := nofun
  cslWru := nofun

/-- A device that acknowledges ten clocks after the cycle started is acknowledged by
the adapter and timed out by the processor. -/
theorem timers_disagree : ¬ Agree unibus1 registerRead (aloneWith (· == 10)) := by
  have hquiet : ∀ t, t ≤ 10 → Quiet unibus1 (aloneWith (· == 10) t) :=
    fun t _ => aloneWith_quiet _ t
  have hnone : ∀ v, v < 11 → ubaRun (aloneWith (· == 10)) v ≠ .ack := by decide
  have hno : ∀ v, v ≤ 10 → ¬ Reaches (aloneWith (· == 10)) v := fun v hv hr =>
    hnone v (by omega) hr.2
  rw [agree_of_not_reaches registerRead_opens hquiet (fun _ => rfl) hno]
  rintro ⟨g, hg, _, _, hack⟩
  have hwait := waiting registerRead_opens hquiet (t := 10) (by omega) fun v hv =>
    hno v (by omega)
  have hlate := hack 10 hg (by omega)
  rw [waiting_devAck registerRead_opens hquiet (Nat.le_refl 10) hwait] at hlate
  cases hlate

theorem timers_agree_iff_prompt : Agree unibus1 registerRead (aloneWith fun _ => true) := by
  have hpass : Passes (aloneWith fun _ => true) 0 1 :=
    ⟨Nat.zero_lt_one, rfl, rfl, fun v h₁ h₂ => by omega, rfl⟩
  exact (timers_agree_iff registerRead_opens (fun t _ => aloneWith_quiet _ t)
    fun _ => rfl).mpr ⟨0, by omega, rfl, nofun, Or.inl ⟨0, 1, by omega, hpass⟩⟩

end Link

end KS10
