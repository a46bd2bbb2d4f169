import KS10.Bus.Noninterference
import KS10.Clocked.Run
import KS10.Uba.Bridge

/-!
# Register accesses and DMA on one adapter

The console and the processor read the registers of a device through the adapter, while
the devices of the adapter wait for the memory.  Both go over the one bus that the
device arbiter selects, and three priorities have to agree: the one of the backplane,
the one of the device arbiter and the one of the acknowledges.

They agree in every memory cycle, because no one asks the adapter for a register then,
and the processor reads only when no device requests.  The console goes before the
devices, and its read takes the bus of the first device that is a target or a master
(`Shared.undisturbed_iff`).
-/

namespace KS10

open Clocked

/-- The adapter, by its slot on the backplane. -/
structure Shared where
  slot : Fin 4

/-- The inputs of one clock.  Of the lines `others` at the arbiter those of the adapter
itself are not looked at. -/
structure Shared.In where
  others : Arb.In
  devs : Devices
  regs : Uba.Regs
  regUbaSr : BitVec 36
  pageRam : PageRam

namespace Shared

variable (a : Shared) (s : UbaNxd) (i : In)

def conf : Uba.Conf where
  ubaNum := BitVec.ofNat 4 (a.slot + 1)
  ubaAddr := 0o763000

/-! ## One clock -/

def reqs : Arb.Reqs :=
  { i.others.toReqs with
    ubaReqI := fun n => if n = a.slot then Uba.busReqO i.devs else i.others.ubaReqI n }

def busReqI : Bool := Arb.ubaReqO (a.reqs i)

/-- The address on the adapter's bus. -/
def busAddrI : BitVec 36 := Arb.ubaAddrO { i.others with toReqs := a.reqs i }

def busAddrO : BitVec 36 := Uba.busAddrO i.pageRam i.devs (a.busReqI i) (a.busAddrI i)

def busDataO : BitVec 36 :=
  Uba.busDataO a.conf i.pageRam i.regUbaSr i.devs (a.busReqI i) (a.busAddrI i)

/-- The backplane with the adapter. -/
def arb : Arb.In :=
  { i.others with
    toReqs := a.reqs i
    ubaAckI := fun n => if n = a.slot then s.busAckO (a.busReqI i) else i.others.ubaAckI n
    ubaAddrI := fun n => if n = a.slot then a.busAddrO i else i.others.ubaAddrI n
    ubaDataI := fun n => if n = a.slot then a.busDataO i else i.others.ubaDataI n }

/-- The acknowledge of a device's memory cycle. -/
def devAckO (n : Fin 4) : Bool := Uba.devAckO i.devs (Arb.ubaAckO (a.arb s i) a.slot) n

/-- One clock of the adapter's timer. -/
def next : UbaNxd :=
  s.next (Uba.nxdIn a.conf i.regs i.devs (a.busReqI i) (a.busAddrI i))

/-! ## What is asked for -/

/-- The requester `u` has the answer of the adapter to an access of a register of the
device `k`. -/
structure Access (u : Arb.Requester) (k : Fin 4) : Prop where
  winner : Arb.winner (a.arb s i) = some u
  selected : Arb.selected (a.arb s i) u = some (.uba a.slot)
  device : Uba.devReq a.conf i.regs (a.busAddrI i) = true
  register : Bus.busVect (a.busAddrI i) = false
  target : ∀ j, i.devs.devAckI j = (j == k)

/-- The memory sees the address and the data of the device `k`. -/
def Presents (k : Fin 4) : Prop :=
  Arb.memAddrO (a.arb s i) = Uba.paged i.pageRam (i.devs.devAddrI k) ∧
    Arb.memDataO (a.arb s i) = i.devs.devDataI k

/-- Registers and memory cycles do not disturb each other in one clock. -/
structure Undisturbed : Prop where
  register : ∀ u k, a.Access s i u k → Arb.received (a.arb s i) u = i.devs.devDataI k
  memory : Arb.winner (a.arb s i) = some (.uba a.slot) →
    ∃ k, i.devs.devReqI k = true ∧ a.Presents s i k ∧
      ∀ j, a.devAckO s i j = (j == k && i.others.memAckI)
  acknowledge : ∀ k, a.devAckO s i k = true →
    Arb.winner (a.arb s i) = some (.uba a.slot) ∧ i.others.memAckI = true ∧
      i.devs.devReqI k = true ∧ a.Presents s i k

/-- The first device that requests a memory cycle. -/
def FirstRequest (j : Fin 4) : Prop :=
  i.devs.devReqI j = true ∧ ∀ m, m < j → i.devs.devReqI m = false

/-- While the console reads a register, no device before the addressed one waits for the
memory with other data on its lines. -/
def Untangled : Prop :=
  ∀ k, a.Access s i .csl k → ∀ j, FirstRequest i j → j < k →
    i.devs.devDataI j = i.devs.devDataI k

variable {a s i}

/-! ## The device arbiter -/

/-- A priority chain takes the first of the four for which `p` holds. -/
theorem first_of_four {α : Type} {p : Fin 4 → Bool} {x : Fin 4 → α} {none : α} {n : Fin 4}
    (hn : p n = true) (hfirst : ∀ m, m < n → p m = false) :
    (if p 0 then x 0 else if p 1 then x 1 else if p 2 then x 2 else if p 3 then x 3 else none) =
      x n := by
  have hall : n = 0 ∨ n = 1 ∨ n = 2 ∨ n = 3 := by omega
  rcases hall with rfl | rfl | rfl | rfl
  · rw [hn, if_pos rfl]
  · rw [hfirst 0 (by decide), hn, if_neg Bool.false_ne_true, if_pos rfl]
  · rw [hfirst 0 (by decide), hfirst 1 (by decide), hn, if_neg Bool.false_ne_true,
      if_neg Bool.false_ne_true, if_pos rfl]
  · rw [hfirst 0 (by decide), hfirst 1 (by decide), hfirst 2 (by decide), hn,
      if_neg Bool.false_ne_true, if_neg Bool.false_ne_true, if_neg Bool.false_ne_true,
      if_pos rfl]

/-- The device arbiter takes the bus of the first device that is a target or a master. -/
theorem devMux_first {d : Devices} {b : Bool} {lines : Fin 4 → BitVec 36} {n : Fin 4}
    (hn : ((b && d.devAckI n) || d.devReqI n) = true)
    (hfirst : ∀ m, m < n → ((b && d.devAckI m) || d.devReqI m) = false) :
    Uba.devMux d b lines = lines n := by
  exact first_of_four hn hfirst

/-- The acknowledge goes to the first device that requests. -/
theorem devAckO_first {b : Bool} {n : Fin 4} (h : FirstRequest i n) (k : Fin 4) :
    Uba.devAckO i.devs b k = (k == n && b) := by
  exact first_of_four (x := fun n => k == n && b) h.1 h.2

theorem exists_firstRequest (h : ∃ k, i.devs.devReqI k = true) : ∃ k, FirstRequest i k := by
  obtain ⟨n, hn⟩ := h
  obtain ⟨k, ⟨hk, hreq⟩, hfirst⟩ :=
    exists_first (p := fun k => ∃ h : k < 4, i.devs.devReqI ⟨k, h⟩ = true) ⟨n, n.isLt, hn⟩
  refine ⟨⟨k, hk⟩, hreq, fun m hm => ?_⟩
  rw [← Bool.not_eq_true]
  exact fun hmr => hfirst m hm ⟨m.isLt, hmr⟩

/-- The adapter requests the bus if one of its devices does. -/
theorem exists_of_busReqO (h : Uba.busReqO i.devs = true) : ∃ k, i.devs.devReqI k = true := by
  unfold Uba.busReqO at h
  simp only [Bool.or_eq_true] at h
  rcases h with ((h | h) | h) | h
  · exact ⟨0, h⟩
  · exact ⟨1, h⟩
  · exact ⟨2, h⟩
  · exact ⟨3, h⟩

theorem devReqI_of_busReqO (h : Uba.busReqO i.devs = false) (k : Fin 4) :
    i.devs.devReqI k = false := by
  unfold Uba.busReqO at h
  simp only [Bool.or_eq_false_iff] at h
  have hall : k = 0 ∨ k = 1 ∨ k = 2 ∨ k = 3 := by omega
  rcases hall with rfl | rfl | rfl | rfl
  · exact h.1.1.1
  · exact h.1.1.2
  · exact h.1.2
  · exact h.2

/-! ## Memory cycles -/

theorem grant_of_memory (h : Arb.winner (a.arb s i) = some (.uba a.slot)) :
    Arb.grant (a.reqs i) = .uba a.slot := by
  rcases Arb.grant_of_winner h with ⟨n, hn, hg⟩ | ⟨hu, -⟩ | ⟨hu, -⟩
  · cases hn
    exact hg
  · cases hu
  · cases hu

/-- The grant goes to an adapter that requests. -/
theorem busReqO_of_grant (h : Arb.grant (a.reqs i) = .uba a.slot) :
    Uba.busReqO i.devs = true := by
  have hreq : (a.reqs i).ubaReqI a.slot = Uba.busReqO i.devs := if_pos rfl
  rw [← hreq]
  revert h
  unfold Arb.grant
  generalize a.slot = n
  split_ifs <;> intro h
  all_goals first
    | cases h
      assumption
    | cases h

/-- No one asks the adapter for a register while it has the bus. -/
theorem busReqI_of_grant (h : Arb.grant (a.reqs i) = .uba a.slot) : a.busReqI i = false := by
  unfold busReqI Arb.ubaReqO
  rw [h]
  rfl

theorem busDataO_of_grant (h : Arb.grant (a.reqs i) = .uba a.slot) :
    a.busDataO i = Uba.devMux i.devs false i.devs.devDataI := by
  have haddr : a.busAddrI i = 0 := by
    unfold busAddrI Arb.ubaAddrO
    rw [h]
  have hread : Bus.busRead 0 = false := by decide
  unfold busDataO Uba.busDataO Uba.wruRead Uba.statRead Uba.pageRead Uba.devData
  rw [haddr, busReqI_of_grant h, hread]
  simp only [Bool.false_and]
  rfl

/-- In a memory cycle of the adapter the memory sees the lines of its first request. -/
theorem presents_of_grant (h : Arb.winner (a.arb s i) = some (.uba a.slot)) {k : Fin 4}
    (hk : FirstRequest i k) : a.Presents s i k := by
  have hgrant : Arb.grant (a.reqs i) = .uba a.slot := grant_of_memory h
  obtain ⟨haddr, hdata⟩ := (Arb.connects (a.arb s i)).presents _ h .mem (List.mem_singleton_self _)
  have hfirst : ∀ lines, Uba.devMux i.devs false lines = lines k := by
    intro lines
    refine devMux_first ?_ fun m hm => ?_
    · rw [Bool.false_and, Bool.false_or]
      exact hk.1
    · rw [Bool.false_and, Bool.false_or]
      exact hk.2 m hm
  constructor
  · refine haddr.trans ((if_pos rfl).trans ?_)
    unfold busAddrO Uba.busAddrO Uba.devAddr
    rw [busReqI_of_grant hgrant, Bool.false_and, if_neg Bool.false_ne_true, hfirst]
  · refine hdata.trans ((if_pos rfl).trans ?_)
    rw [busDataO_of_grant hgrant, hfirst]

/-! ## Register accesses -/

/-- The registers of the adapter are among its own addresses. -/
theorem busDataO_of_device (hdev : Uba.devReq a.conf i.regs (a.busAddrI i) = true)
    (hvect : Bus.busVect (a.busAddrI i) = false) :
    a.busDataO i = Uba.devMux i.devs (a.busReqI i) i.devs.devDataI := by
  generalize haddr : a.busAddrI i = addr at hdev hvect
  have hvr : Uba.vectRead a.conf addr = false := by
    unfold Uba.vectRead
    rw [hvect]
    simp
  have hdecode : Uba.addressed a.conf addr = true ∧ Uba.ownAddr a.conf addr = false := by
    unfold Uba.devReq at hdev
    rw [hvr, Bool.or_false, Bool.and_eq_true, Bool.and_eq_true, Bool.not_eq_true'] at hdev
    exact hdev.1
  obtain ⟨hadr, hown⟩ := hdecode
  have hwru : Uba.wruRead addr = false := Uba.wruRead_of_addressed hadr
  unfold Uba.ownAddr at hown
  rw [beq_eq_false_iff_ne] at hown
  have hstat : Uba.statRead a.conf addr = false := by
    unfold Uba.statRead
    rw [Bool.and_eq_false_iff, beq_eq_false_iff_ne]
    refine Or.inr fun heq => hown ?_
    rw [heq]
    have hsame : field (0o763000 + 0o100 : BitVec 18) 0 10 =
        field (0o763000 : BitVec 18) 0 10 := by decide
    exact hsame
  have hpage : Uba.pageRead a.conf addr = false := by
    unfold Uba.pageRead
    rw [Bool.and_eq_false_iff, beq_eq_false_iff_ne]
    refine Or.inr fun heq => hown ?_
    have hsub : ∀ x : BitVec 18, field (field x 0 11) 0 10 = field x 0 10 := fun x =>
      field_field x (by decide) (by decide) (by decide) (by decide)
    rw [← hsub, heq, hsub]
    have hsame : field (0o763000 + 0o000 : BitVec 18) 0 10 =
        field (0o763000 : BitVec 18) 0 10 := by decide
    exact hsame
  unfold busDataO Uba.busDataO Uba.devData
  rw [haddr, hwru, hstat, hpage, hvect, Bool.and_false]
  rfl

theorem received_of_access {u : Arb.Requester} {k : Fin 4} (h : a.Access s i u k) :
    Arb.received (a.arb s i) u = Uba.devMux i.devs (a.busReqI i) i.devs.devDataI := by
  rw [← busDataO_of_device h.device h.register]
  exact ((Arb.connects (a.arb s i)).receives u _ h.winner h.selected).trans (if_pos rfl)

/-- Only the console and the processor read registers, and the processor only while no
device waits. -/
theorem Access.requester {u : Arb.Requester} {k : Fin 4} (h : a.Access s i u k) :
    a.busReqI i = true ∧ (u = .csl ∨ ∀ m, i.devs.devReqI m = false) := by
  unfold busReqI Arb.ubaReqO
  rcases Arb.grant_of_winner h.winner with ⟨n, rfl, -⟩ | ⟨rfl, hg⟩ | ⟨-, hg⟩
  · have hmem : Arb.Target.uba a.slot ∈ Arb.Requester.reach (.uba n) :=
      List.mem_of_find?_eq_some h.selected
    cases List.mem_singleton.mp hmem
  · have hcsl : Arb.grant (a.reqs i) = .csl := hg
    rw [hcsl]
    exact ⟨rfl, Or.inl rfl⟩
  · have hcpu : Arb.grant (a.reqs i) = .cpu := hg
    rw [hcpu]
    refine ⟨rfl, Or.inr (devReqI_of_busReqO ?_)⟩
    rw [← Bool.not_eq_true]
    intro hreq
    have huba : Arb.requests (a.arb s i) (.uba a.slot) = true := (if_pos rfl).trans hreq
    have hlose : Arb.winner (a.arb s i) ≠ some (.uba a.slot) := by
      rw [Arb.winner_eq, hg]
      intro heq
      cases heq
    -- A request that loses does not lose to the processor.
    rcases Arb.grant_of_loser huba hlose with hgrant | ⟨m, hgrant⟩
    · rw [hg] at hgrant
      cases hgrant
    · rw [hg] at hgrant
      cases hgrant

/-- The reader receives the data of the addressed device if no device before it waits. -/
theorem received_of_first {u : Arb.Requester} {k : Fin 4} (h : a.Access s i u k)
    (hfirst : ∀ m, m < k → i.devs.devReqI m = false) :
    Arb.received (a.arb s i) u = i.devs.devDataI k := by
  rw [received_of_access h]
  refine devMux_first ?_ fun m hm => ?_
  · rw [h.requester.1, h.target, beq_self_eq_true]
    rfl
  · rw [h.target, hfirst m hm, beq_eq_false_iff_ne.mpr (Fin.ne_of_lt hm), Bool.and_false]
    rfl

/-- The reader receives the data of a device that waits before the addressed one. -/
theorem received_of_request {u : Arb.Requester} {j k : Fin 4} (h : a.Access s i u k)
    (hj : FirstRequest i j) (hjk : j < k) :
    Arb.received (a.arb s i) u = i.devs.devDataI j := by
  rw [received_of_access h]
  refine devMux_first ?_ fun m hm => ?_
  · rw [hj.1, Bool.or_true]
  · rw [h.target, hj.2 m hm, beq_eq_false_iff_ne.mpr (Fin.ne_of_lt (Fin.lt_trans hm hjk)),
      Bool.and_false]
    rfl

/-! ## One clock of a run -/

theorem ubaAckO_eq : Arb.ubaAckO (a.arb s i) a.slot =
    (Arb.grant (a.reqs i) == .uba a.slot && i.others.memAckI) := rfl

/-- An acknowledged device is the first request of a memory cycle. -/
theorem of_devAckO {k : Fin 4} (h : a.devAckO s i k = true) :
    Arb.winner (a.arb s i) = some (.uba a.slot) ∧ i.others.memAckI = true ∧ FirstRequest i k := by
  by_cases hsome : ∃ n, i.devs.devReqI n = true
  · obtain ⟨n, hn⟩ := exists_firstRequest hsome
    unfold devAckO at h
    rw [devAckO_first hn, Bool.and_eq_true, beq_iff_eq] at h
    obtain ⟨rfl, hack⟩ := h
    rw [ubaAckO_eq, Bool.and_eq_true, beq_iff_eq] at hack
    refine ⟨?_, hack.2, hn⟩
    rw [Arb.winner_eq]
    exact congrArg Arb.Grant.requester hack.1
  · have hnone : ∀ n, i.devs.devReqI n = false := by
      intro n
      rw [← Bool.not_eq_true]
      exact fun hn => hsome ⟨n, hn⟩
    unfold devAckO Uba.devAckO at h
    simp [hnone] at h

theorem undisturbed_of_untangled (h : a.Untangled s i) : a.Undisturbed s i where
  register u k hacc := by
    by_cases hbefore : ∃ m, m < k ∧ i.devs.devReqI m = true
    · obtain ⟨m, hmk, hm⟩ := hbefore
      obtain ⟨j, hj⟩ := exists_firstRequest ⟨m, hm⟩
      have hjm : j ≤ m := by
        by_contra hgt
        rw [hj.2 m (Fin.not_le.mp hgt)] at hm
        cases hm
      have hjk : j < k := Fin.lt_of_le_of_lt hjm hmk
      rcases hacc.requester.2 with rfl | hnone
      · rw [received_of_request hacc hj hjk, h k hacc j hj hjk]
      · rw [hnone m] at hm
        cases hm
    · refine received_of_first hacc fun m hm => ?_
      rw [← Bool.not_eq_true]
      exact fun hreq => hbefore ⟨m, hm, hreq⟩
  memory hwin := by
    have hgrant : Arb.grant (a.reqs i) = .uba a.slot := grant_of_memory hwin
    obtain ⟨k, hk⟩ := exists_firstRequest (exists_of_busReqO (busReqO_of_grant hgrant))
    refine ⟨k, hk.1, presents_of_grant hwin hk, fun j => ?_⟩
    unfold devAckO
    rw [devAckO_first hk, ubaAckO_eq, hgrant, beq_self_eq_true, Bool.true_and]
  acknowledge k hack := by
    obtain ⟨hwin, hmem, hk⟩ := of_devAckO hack
    exact ⟨hwin, hmem, hk.1, presents_of_grant hwin hk⟩

/-- In a clock of a run, register accesses and memory cycles leave each other alone exactly
if no device waits before the one that the console reads. -/
theorem undisturbed_iff (a : Shared) (s : UbaNxd) (i : Nat → In) (t : Nat) :
    a.Undisturbed (run a.next s i t) (i t) ↔ a.Untangled (run a.next s i t) (i t) := by
  constructor
  · intro h k hacc j hj hjk
    rw [← h.register .csl k hacc]
    exact (received_of_request hacc hj hjk).symm
  · exact undisturbed_of_untangled

/-- The console reads the second device of adapter 1, and the first device waits for the
memory. -/
def tangled : In where
  others :=
    { cslReqI := true
      ubaReqI := fun _ => false
      cpuReqI := false
      cslAckI := false
      cslAddrI := 0o041201776700
      cslDataI := 0
      cpuAddrI := 0
      cpuDataI := 0
      ubaAckI := fun _ => false
      ubaAddrI := fun _ => 0
      ubaDataI := fun _ => 0
      memAckI := false
      memDataI := 0 }
  devs :=
    { devReqI := fun k => k == 0
      devAckI := fun k => k == 1
      devIntr := fun _ => Level.intrNul
      devAddrI := fun _ => 0
      devDataI := fun k => if k = 0 then 0o111111 else 0o222222 }
  regs := { regUbaMr := false, statPih := 0, statPil := 0 }
  regUbaSr := 0
  pageRam := fun _ => 0

/-- The console receives the data of the device that waits. -/
theorem undisturbed_fails :
    ¬ ∀ (a : Shared) (s : UbaNxd) (i : Nat → In) (t : Nat),
      a.Undisturbed (run a.next s i t) (i t) := by
  intro h
  let a : Shared := { slot := 0 }
  let s : UbaNxd := { uba := false, state := .null }
  have hacc : a.Access (run a.next s (fun _ => tangled) 1) tangled .csl 1 :=
    ⟨by decide, by decide, by decide, by decide, by decide⟩
  have hdata := (h a s (fun _ => tangled) 1).register .csl 1 hacc
  exact absurd hdata (by decide)

end Shared

end KS10
