import KS10.Bus.Arbiter
import Mathlib.Tactic.SplitIfs

/-!
# What the arbiter connects

Six units ask for the bus and six answer, and in each clock the arbiter connects one
requester with one target.  The requesters are ordered: the console, the adapters,
the processor.  So are the targets of a requester, and the first that acknowledges is
the one it is connected with.

`Arb.Arbitrates` says all of this of one clock.  Its last part compares two clocks:
the address and the data of a requester that loses change nothing.  An adapter has
one data bus for its requests and for its answers, so that the part leaves out the
adapter whose answer the winner takes.
-/

namespace KS10

namespace Arb

/-! ## Requesters and targets -/

inductive Requester where
  | csl
  | uba (n : Fin 4)
  | cpu
  deriving DecidableEq

inductive Target where
  | mem
  | uba (n : Fin 4)
  | csl
  deriving DecidableEq

/-- The requesters by priority. -/
def Requester.order : List Requester := [.csl, .uba 0, .uba 1, .uba 2, .uba 3, .cpu]

/-- The targets of a requester by priority. -/
def Requester.reach : Requester → List Target
  | csl => [.mem, .uba 0, .uba 1, .uba 2, .uba 3]
  | uba _ => [.mem]
  | cpu => [.mem, .uba 0, .uba 1, .uba 2, .uba 3, .csl]

/-- The lines of a requester. -/
def requests (i : In) : Requester → Bool
  | .csl => i.cslReqI
  | .uba n => i.ubaReqI n
  | .cpu => i.cpuReqI

def addr (i : In) : Requester → BitVec 36
  | .csl => i.cslAddrI
  | .uba n => i.ubaAddrI n
  | .cpu => i.cpuAddrI

def data (i : In) : Requester → BitVec 36
  | .csl => i.cslDataI
  | .uba n => i.ubaDataI n
  | .cpu => i.cpuDataI

def acks (i : In) : Requester → Bool
  | .csl => cslAckO i
  | .uba n => ubaAckO i n
  | .cpu => cpuAckO i

def received (i : In) : Requester → BitVec 36
  | .csl => cslDataO i
  | .uba n => ubaDataO i n
  | .cpu => cpuDataO i

/-- The lines of a target. -/
def answers (i : In) : Target → Bool
  | .mem => i.memAckI
  | .uba n => i.ubaAckI n
  | .csl => i.cslAckI

def response (i : In) : Target → BitVec 36
  | .mem => i.memDataI
  | .uba n => i.ubaDataI n
  | .csl => i.cslDataI

def targetAddr (i : In) : Target → BitVec 36
  | .mem => memAddrO i
  | .uba _ => ubaAddrO i
  | .csl => cslAddrO i

def targetData (i : In) : Target → BitVec 36
  | .mem => memDataO i
  | .uba n => ubaDataO i n
  | .csl => cslDataO i

/-- The requester with the highest priority. -/
def winner (i : In) : Option Requester := Requester.order.find? (requests i)

/-- The target that answers the requester. -/
def selected (i : In) (u : Requester) : Option Target := u.reach.find? (answers i)

/-- The outputs of the arbiter. -/
structure Out where
  cslReqO : Bool
  ubaReqO : Bool
  memReqO : Bool
  ack : Requester → Bool
  cslAddrO : BitVec 36
  ubaAddrO : BitVec 36
  memAddrO : BitVec 36
  cslDataO : BitVec 36
  ubaDataO : Fin 4 → BitVec 36
  memDataO : BitVec 36
  cpuDataO : BitVec 36

def out (i : In) : Out where
  cslReqO := cslReqO i.toReqs
  ubaReqO := ubaReqO i.toReqs
  memReqO := memReqO i.toReqs
  ack := acks i
  cslAddrO := cslAddrO i
  ubaAddrO := ubaAddrO i
  memAddrO := memAddrO i
  cslDataO := cslDataO i
  ubaDataO := ubaDataO i
  memDataO := memDataO i
  cpuDataO := cpuDataO i

/-- The two clocks differ at most in the address and the data of the requester `u`. -/
structure SameBut (u : Requester) (i i' : In) : Prop where
  reqs : i'.toReqs = i.toReqs
  answers : answers i' = answers i
  memDataI : i'.memDataI = i.memDataI
  addr : ∀ v, v ≠ u → addr i' v = addr i v
  data : ∀ v, v ≠ u → data i' v = data i v

/-- The requester is the adapter whose answer the winner takes. -/
def Answering (i : In) (u : Requester) : Prop :=
  ∃ w n, winner i = some w ∧ selected i w = some (.uba n) ∧ u = .uba n

/-- The address and the data of the losing requester `u` change no output. -/
def Silent (i : In) (u : Requester) : Prop :=
  requests i u = true → winner i ≠ some u → ∀ i', SameBut u i i' → out i' = out i

/-- What the arbiter does in one clock, besides its silence about the losers. -/
structure Connects (i : In) : Prop where
  one : ∀ u v, acks i u = true → acks i v = true → u = v
  highest : ∀ u, acks i u = true → winner i = some u
  presents : ∀ u, winner i = some u → ∀ t, t ∈ u.reach →
    targetAddr i t = addr i u ∧ targetData i t = data i u
  acked : ∀ u, winner i = some u → (acks i u = true ↔ ∃ t, selected i u = some t)
  receives : ∀ u t, winner i = some u → selected i u = some t → received i u = response i t

/-- What the arbiter does in one clock. -/
structure Arbitrates (i : In) : Prop extends Connects i where
  silent : ∀ u, ¬ Answering i u → Silent i u

variable {i i' : In} {u : Requester}

/-! ## The grant -/

/-- The winner has the grant. -/
def Grant.requester : Grant → Option Requester
  | .csl => some .csl
  | .uba n => some (.uba n)
  | .cpu => some .cpu
  | .none => Option.none

theorem winner_eq (i : In) : winner i = (grant i.toReqs).requester := by
  unfold winner Requester.order grant
  simp only [List.find?_cons, List.find?_nil, requests]
  cases i.cslReqI with
  | true => rfl
  | false =>
      cases i.ubaReqI 0 with
      | true => rfl
      | false =>
          cases i.ubaReqI 1 with
          | true => rfl
          | false =>
              cases i.ubaReqI 2 with
              | true => rfl
              | false =>
                  cases i.ubaReqI 3 with
                  | true => rfl
                  | false =>
                      cases i.cpuReqI with
                      | true => rfl
                      | false => rfl

theorem grant_of_winner (h : winner i = some u) :
    (∃ n, u = .uba n ∧ grant i.toReqs = .uba n) ∨ (u = .csl ∧ grant i.toReqs = .csl) ∨
      (u = .cpu ∧ grant i.toReqs = .cpu) := by
  rw [winner_eq] at h
  cases hg : grant i.toReqs with
  | csl =>
      rw [hg] at h
      exact Or.inr (Or.inl ⟨(Option.some.inj h).symm, rfl⟩)
  | uba n =>
      rw [hg] at h
      exact Or.inl ⟨n, (Option.some.inj h).symm, rfl⟩
  | cpu =>
      rw [hg] at h
      exact Or.inr (Or.inr ⟨(Option.some.inj h).symm, rfl⟩)
  | none =>
      rw [hg] at h
      cases h

/-- Whoever is acknowledged has the grant. -/
theorem winner_of_acks (h : acks i u = true) : winner i = some u := by
  rw [winner_eq]
  cases u with
  | csl =>
      simp only [acks, cslAckO, Bool.and_eq_true, beq_iff_eq] at h
      rw [h.1]
      rfl
  | uba n =>
      simp only [acks, ubaAckO, Bool.and_eq_true, beq_iff_eq] at h
      rw [h.1]
      rfl
  | cpu =>
      simp only [acks, cpuAckO, Bool.and_eq_true, beq_iff_eq] at h
      rw [h.1]
      rfl

/-- The data of the first target that acknowledges. -/
theorem ackData_eq (i : In) (other : BitVec 36) :
    ackData i other =
      ((selected i .csl).map (response i)).getD other := by
  unfold ackData selected Requester.reach
  simp only [List.find?_cons, List.find?_nil, answers]
  cases i.memAckI with
  | true => rfl
  | false =>
      cases i.ubaAckI 0 with
      | true => rfl
      | false =>
          cases i.ubaAckI 1 with
          | true => rfl
          | false =>
              cases i.ubaAckI 2 with
              | true => rfl
              | false =>
                  cases i.ubaAckI 3 with
                  | true => rfl
                  | false => rfl

/-- The processor also reaches the console. -/
theorem selected_cpu (i : In) : selected i .cpu =
    match selected i .csl with
    | some t => some t
    | none => if i.cslAckI then some .csl else none := by
  have hreach : Requester.reach .cpu = Requester.reach .csl ++ [.csl] := rfl
  unfold selected
  rw [hreach, List.find?_append]
  cases (Requester.reach .csl).find? (answers i) with
  | some t => rfl
  | none => exact List.find?_singleton

theorem selected_csl_isSome (i : In) : (selected i .csl).isSome =
    (i.memAckI || i.ubaAckI 0 || i.ubaAckI 1 || i.ubaAckI 2 || i.ubaAckI 3) := by
  rw [Bool.eq_iff_iff, selected, List.find?_isSome]
  simp [Requester.reach, answers, or_assoc]

/-! ## One clock -/

/-- At most one requester is acknowledged, the one with the highest priority.  It reaches
its targets with its own address and data, and is acknowledged by the first that
answers, with the data of that one. -/
theorem connects (i : In) : Connects i where
  one u v hu hv := Option.some.inj ((winner_of_acks hu).symm.trans (winner_of_acks hv))
  highest u := winner_of_acks
  presents u h t ht := by
    rcases grant_of_winner h with ⟨n, rfl, hg⟩ | ⟨rfl, hg⟩ | ⟨rfl, hg⟩
    · obtain rfl : t = .mem := List.mem_singleton.mp ht
      simp [targetAddr, targetData, memAddrO, memDataO, hg, addr, data]
    · cases t with
      | mem => simp [targetAddr, targetData, memAddrO, memDataO, hg, addr, data]
      | uba n => simp [targetAddr, targetData, ubaAddrO, ubaDataO, hg, addr, data]
      | csl => simp [Requester.reach] at ht
    · cases t with
      | mem => simp [targetAddr, targetData, memAddrO, memDataO, hg, addr, data]
      | uba n => simp [targetAddr, targetData, ubaAddrO, ubaDataO, hg, addr, data]
      | csl => simp [targetAddr, targetData, cslAddrO, cslDataO, hg, addr, data]
  acked u h := by
    rw [← Option.isSome_iff_exists]
    rcases grant_of_winner h with ⟨n, rfl, hg⟩ | ⟨rfl, hg⟩ | ⟨rfl, hg⟩
    · rw [selected, List.find?_isSome]
      simp [acks, ubaAckO, hg, Requester.reach, answers]
    · rw [selected_csl_isSome]
      simp [acks, cslAckO, hg]
    · have hcpu : (selected i .cpu).isSome = ((selected i .csl).isSome || i.cslAckI) := by
        rw [selected_cpu]
        cases selected i .csl with
        | some t => rfl
        | none =>
            cases i.cslAckI with
            | true => rfl
            | false => rfl
      rw [hcpu, selected_csl_isSome]
      simp [acks, cpuAckO, hg]
  receives u t h ht := by
    rcases grant_of_winner h with ⟨n, rfl, hg⟩ | ⟨rfl, hg⟩ | ⟨rfl, hg⟩
    · simp only [selected, Requester.reach, List.find?_cons, List.find?_nil, answers] at ht
      cases hmem : i.memAckI with
      | true =>
          rw [hmem] at ht
          cases ht
          simp [received, ubaDataO, hg, hmem, response]
      | false =>
          rw [hmem] at ht
          cases ht
    · simp [received, cslDataO, hg, ackData_eq, ht]
    · simp only [received, cpuDataO, hg, ackData_eq, if_true]
      rw [selected_cpu] at ht
      cases hcsl : selected i .csl with
      | some t' =>
          rw [hcsl] at ht
          cases ht
          rfl
      | none =>
          rw [hcsl] at ht
          dsimp only at ht
          cases hack : i.cslAckI with
          | true =>
              rw [hack] at ht
              cases ht
              rfl
          | false =>
              rw [hack] at ht
              cases ht

/-! ## Losers -/

/-- A requester loses to the console or to an adapter. -/
theorem grant_of_loser (hu : requests i u = true) (hlose : winner i ≠ some u) :
    grant i.toReqs = .csl ∨ ∃ m, grant i.toReqs = .uba m := by
  have hcsl : i.cslReqI = true → grant i.toReqs = .csl := fun h => by simp [grant, h]
  have huba : ∀ n, i.ubaReqI n = true → grant i.toReqs = .csl ∨ ∃ m, grant i.toReqs = .uba m := by
    intro n hn
    have hall : n = 0 ∨ n = 1 ∨ n = 2 ∨ n = 3 := by omega
    unfold grant
    split_ifs with h0 h1 h2 h3 h4 h5
    · exact Or.inl rfl
    · exact Or.inr ⟨0, rfl⟩
    · exact Or.inr ⟨1, rfl⟩
    · exact Or.inr ⟨2, rfl⟩
    · exact Or.inr ⟨3, rfl⟩
    · rcases hall with rfl | rfl | rfl | rfl
      · exact absurd hn h1
      · exact absurd hn h2
      · exact absurd hn h3
      · exact absurd hn h4
    · rcases hall with rfl | rfl | rfl | rfl
      · exact absurd hn h1
      · exact absurd hn h2
      · exact absurd hn h3
      · exact absurd hn h4
  cases u with
  | csl => exact Or.inl (hcsl hu)
  | uba n => exact huba n hu
  | cpu =>
      rw [winner_eq] at hlose
      cases hg : grant i.toReqs with
      | csl => exact Or.inl rfl
      | uba m => exact Or.inr ⟨m, rfl⟩
      | cpu =>
          rw [hg] at hlose
          exact absurd rfl hlose
      | none =>
          exfalso
          unfold grant at hg
          split_ifs at hg
          rename_i hcpu
          exact hcpu hu

theorem SameBut.selected (h : SameBut u i i') (w : Requester) :
    selected i' w = selected i w := by
  rw [Arb.selected, Arb.selected, h.answers]

/-- The acknowledges follow the requests and the answers. -/
theorem SameBut.acks (h : SameBut u i i') : acks i' = acks i := by
  have hans : ∀ t, Arb.answers i' t = Arb.answers i t := fun t => congrFun h.answers t
  have hmem : i'.memAckI = i.memAckI := hans .mem
  have huba : ∀ n, i'.ubaAckI n = i.ubaAckI n := fun n => hans (.uba n)
  have hcsl : i'.cslAckI = i.cslAckI := hans .csl
  funext v
  cases v with
  | csl => simp [Arb.acks, cslAckO, h.reqs, hmem, huba]
  | uba n => simp [Arb.acks, ubaAckO, h.reqs, hmem]
  | cpu => simp [Arb.acks, cpuAckO, h.reqs, hmem, huba, hcsl]

/-- The response that the console takes is not the loser's. -/
theorem SameBut.ackData (h : SameBut u i i') (hw : winner i = some .csl)
    (ha : ¬ Answering i u) : ackData i' 0 = ackData i 0 := by
  rw [ackData_eq, ackData_eq, h.selected]
  cases ht : Arb.selected i .csl with
  | none => rfl
  | some t =>
      have hreach : t ∈ Requester.reach .csl := List.mem_of_find?_eq_some ht
      cases t with
      | mem => exact h.memDataI
      | uba n => exact h.data (.uba n) fun heq => ha ⟨.csl, n, hw, ht, heq.symm⟩
      | csl => simp [Requester.reach] at hreach

/-- The address and the data of a loser change no output. -/
theorem silent (ha : ¬ Answering i u) : Silent i u := by
  intro hu hlose i' h
  have hacks := h.acks
  have hmemAck : i'.memAckI = i.memAckI := congrFun h.answers .mem
  rcases grant_of_loser hu hlose with hg | ⟨m, hg⟩
  · have hwinner : winner i = some .csl := by
      rw [winner_eq, hg]
      rfl
    have hne : Requester.csl ≠ u := fun heq => hlose (heq ▸ hwinner)
    have haddr : i'.cslAddrI = i.cslAddrI := h.addr .csl hne
    have hdata : i'.cslDataI = i.cslDataI := h.data .csl hne
    simp only [out, h.reqs, hacks, cslAddrO, ubaAddrO, memAddrO, cslDataO, memDataO, cpuDataO, hg,
      haddr, hdata, h.ackData hwinner ha]
    congr 1
    funext n
    simp only [ubaDataO, h.reqs, hg, hdata]
  · have hwinner : winner i = some (.uba m) := by
      rw [winner_eq, hg]
      rfl
    have hne : Requester.uba m ≠ u := fun heq => hlose (heq ▸ hwinner)
    have haddr : i'.ubaAddrI m = i.ubaAddrI m := h.addr (.uba m) hne
    have hdata : i'.ubaDataI m = i.ubaDataI m := h.data (.uba m) hne
    simp only [out, h.reqs, hacks, cslAddrO, ubaAddrO, memAddrO, cslDataO, memDataO, cpuDataO, hg,
      haddr, hdata]
    congr 1
    funext n
    simp only [ubaDataO, h.reqs, hg, hmemAck, h.memDataI]

/-- In every clock the arbiter connects the requester with the highest priority, and the
address and the data of a loser change nothing, unless it is the adapter that answers
the winner. -/
theorem arbitrates (i : In) : Arbitrates i :=
  { connects i with silent := fun _ => silent }

/-- The console reads from the first adapter, which requests the bus as well. -/
def readsRequester : In where
  cslReqI := true
  ubaReqI n := n == 0
  cpuReqI := false
  cslAckI := false
  cslAddrI := 0
  cslDataI := 0
  cpuAddrI := 0
  cpuDataI := 0
  ubaAckI n := n == 0
  ubaAddrI _ := 0
  ubaDataI _ := 0
  memAckI := false
  memDataI := 0

/-- The data of the losing adapter are what the console receives. -/
theorem silent_fails : ¬ ∀ i u, Silent i u := by
  intro h
  let i (d : BitVec 36) : In := { readsRequester with ubaDataI := fun n => if n = 0 then d else 0 }
  have hsame : SameBut (.uba 0) (i 0) (i 1) := by
    refine ⟨rfl, rfl, rfl, ?_, ?_⟩
    · intro v _
      cases v <;> rfl
    · intro v hv
      cases v with
      | csl => rfl
      | cpu => rfl
      | uba n =>
          have hn : n ≠ 0 := fun hn => hv (hn ▸ rfl)
          show (if n = 0 then 1 else 0 : BitVec 36) = if n = 0 then 0 else 0
          rw [if_neg hn, if_neg hn]
  have hout := h (i 0) (.uba 0) (by decide) (by decide) (i 1) hsame
  have hdata : (1 : BitVec 36) = 0 := congrArg Out.cslDataO hout
  exact absurd hdata (by decide)

end Arb

end KS10
