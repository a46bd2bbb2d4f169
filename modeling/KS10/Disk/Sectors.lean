import KS10.Disk.Words

/-!
# Sectors

What the transfers do for each half sector besides its words: address the card at the
beginning, and at the end go on with the next half sector or finish.
-/

namespace KS10

open Clocked
open Sd (ff)

namespace Xfer

variable {env : Env} {v : View} {s : Xfer} {rx : BitVec 8}

/-! ## The beginning of a transfer -/

/-- The controller has accepted a request for `n` words from the sector `a` on; the card
is ready. -/
structure Starts (st : Sd.State) (readop : Bool) (a : BitVec 32) (n : Nat) (s : Xfer) : Prop where
  state : s.sd.state = st
  readop : s.sd.sdREADOP = readop
  sectCNT : s.sd.sectCNT = false
  sectADDR : s.sd.sectADDR = a
  op : s.sd.spiOP ≠ .tr
  req : s.sd.devREQO = false
  incBA : s.sd.sdINCBA = false
  incWC : s.sd.sdINCWC = false
  setWCE : s.sd.sdSETWCE = false
  byte : s.spi.byte = none
  notDone : s.spi.spiDONE = false
  waited : s.waited = 0
  rhWC : s.wc.rhWC = -BitVec.ofNat 16 (2 * n)
  card : s.card.Ready
  rhWCE : s.rhWCE = false
  writes : s.writes = []
  cycles : s.cycles = 0

theorem Starts.at {st : Sd.State} {readop : Bool} {a : BitVec 32} {n : Nat}
    (h : Starts st readop a n s) : At env st (s.view env) s where
  state := h.state
  byte := h.byte
  op := h.op
  req := h.req
  waited := h.waited
  isDone := h.notDone
  isRx := nofun
  view := rfl
  incBA := h.incBA
  incWC := h.incWC
  setWCE := h.setWCE

section Beginning

variable {st : Sd.State} {readop : Bool} {a : BitVec 32} {n : Nat}

/-- The first half sector is the one requested. -/
theorem Starts.view_sectADDR (h : Starts st readop a n s) :
    (s.view env).sectADDR = a + BitVec.ofNat 32 0 :=
  h.sectADDR.trans (BitVec.add_zero a).symm

/-- No word has gone to the memory yet. -/
theorem Starts.view_ba (h : Starts st readop a n s) :
    (s.view env).ba = s.ba.plus env.rhBAI 0 := by
  rw [← h.at.ba]
  exact RhBa.plus_zero.symm

/-- All the words are left. -/
theorem Starts.view_wc (h : Starts st readop a n s) :
    (s.view env).wc = RhWc.left (n % 2 ^ 15) := by
  rw [← h.at.wc]
  exact h.rhWC.trans (RhWc.left_mod n)

end Beginning

/-! ## The beginning of a half sector -/

/-- The command `0x40 + op` on a sector. -/
def sectorCommand (a : BitVec 32) (op : BitVec 8) : List (BitVec 8) :=
  { Sd.reset with sectADDR := a }.sectorCommand op

/-- The card after a command. -/
def View.addressed (v : View) (op : BitVec 8) (card : Card) : View :=
  { v with loopCNT := 0, sdCMD := sectorCommand v.sectADDR op, cs := false, card := card }

/-- The states `a0` to `a2` send a command on the sector and take the answer `00`. -/
structure Addresses (a0 a1 a2 a3 : Sd.State) (op : BitVec 8) : Prop where
  counts1 : Sd.counts a1 = true
  counts2 : Sd.counts a2 = true
  isCommand : (0x40 + op).extractLsb' 6 2 = 0b01#2
  running0 : a0 ≠ .done
  select : ∀ (sd : Sd) (i : Sd.In), sd.state = a0 →
    sd.next i = sd.quiet.command (sd.quiet.sectorCommand op) a1
  send : ∀ (sd : Sd) (i : Sd.In), sd.state = a1 →
    sd.next i = sd.quiet.sendCommand i (sd.quiet.goto a2)
  answer : ∃ late bad : Sd → Sd.In → Sd, ∀ (sd : Sd) (i : Sd.In), sd.state = a2 →
    sd.next i = sd.quiet.poll i Sd.nCR (late sd i)
      (if i.spiRXD == 0x00 then sd.quiet.goto a3 else bad sd i)

theorem succ_ne_zero {m : Nat} (hm : m + 1 < 65536) : BitVec.ofNat 16 (m + 1) ≠ 0 := by
  intro h0
  have := congrArg BitVec.toNat h0
  rw [BitVec.toNat_ofNat, Nat.mod_eq_of_lt hm] at this
  exact absurd this (Nat.succ_ne_zero m)

/-- The count before the last word of a half sector. -/
theorem ofNat_ne_last {k : Nat} (hk : k < 63) : BitVec.ofNat 16 k ≠ 63 := by
  intro h
  have := congrArg BitVec.toNat h
  rw [BitVec.toNat_ofNat, Nat.mod_eq_of_lt (by omega)] at this
  exact absurd this (Nat.ne_of_lt hk)

section Addresses

variable {a0 a1 a2 a3 a4 : Sd.State} {op : BitVec 8}

theorem Addresses.sent (h : Addresses a0 a1 a2 a3 op) (hready : v.card.Ready) :
    Comes env (Still env false 0 a0 v)
      (At env a2 (v.addressed op (v.card.accept env.timing (sectorCommand v.sectADDR op)))) := by
  have hfirst : Comes env (Still env false 0 a0 v) (At env a1 (v.addressed op v.card)) := by
    refine Leads.one (fun s hs => hs.running h.running0) fun s hs => ?_
    refine hs.awake (h.select _ _ hs.state) nofun rfl rfl rfl rfl rfl ?_
    rw [← hs.view]
    rfl
  have hsent : Comes env (At env a1 (v.addressed op v.card)) _ :=
    command_sent h.send h.counts1 (counts_running h.counts1) rfl rfl rfl
  rw [show (v.addressed op v.card).sdCMD = sectorCommand v.sectADDR op from rfl,
    show (v.addressed op v.card).card = v.card from rfl] at hsent
  have hcard : v.card.exchanges env.timing (sectorCommand v.sectADDR op) =
      v.card.accept env.timing (sectorCommand v.sectADDR op) :=
    Card.exchanges_command hready h.isCommand
  rw [hcard] at hsent
  refine (hfirst.trans hsent).trans (Leads.one
    (fun s ⟨_, hs⟩ => hs.toStill.running (counts_running h.counts1)) fun s ⟨_, hs⟩ => ?_)
  exact hs.toStill.awake (sendCommand_next h.send hs.toStill rfl) SpiOp.nop_ne_tr rfl rfl rfl
    rfl rfl (after_goto _ hs.view)

/-- The answer is taken. -/
theorem Addresses.taken (h : Addresses a0 a1 a2 a3 op) (hcs : v.cs = false) (h0 : v.loopCNT = 0)
    {m : Fin 8} {rest : List (BitVec 8)} :
    Comes env (At env a2 (v.feed (List.replicate m ff ++ 0x00 :: rest)))
      (At env a3 { v.feed rest with loopCNT := 0 }) := by
  obtain ⟨late, bad, hn⟩ := h.answer
  have hm : m.val < Sd.nCR.toNat := m.isLt
  refine (answered hn h.counts2 (counts_running h.counts2) hcs h0 hm).trans
    (Leads.one (fun s hs => hs.toStill.running (counts_running h.counts2)) fun s hs => ?_)
  have hE := poll_next hn hs.toStill (succ_ne_zero (by omega)) (by decide)
  rw [show (s.sdIn env).spiRXD = 0x00 from hs.isRx rfl, if_pos (by decide)] at hE
  exact hs.toStill.awake hE SpiOp.nop_ne_tr rfl rfl rfl rfl rfl (after_goto _ hs.view)

/-- The state `a3` waits for the data token. -/
structure AwaitsToken (a3 a4 : Sd.State) : Prop where
  counts : Sd.counts a3 = true
  token : ∃ late bad : BitVec 8, ∀ (sd : Sd) (i : Sd.In), sd.state = a3 →
    sd.next i = sd.quiet.token i late bad a4

/-- The token comes. -/
theorem AwaitsToken.taken (h : AwaitsToken a3 a4) (hcs : v.cs = false) (h0 : v.loopCNT = 0)
    {m : Fin 1023} {rest : List (BitVec 8)} :
    Comes env (At env a3 (v.feed (List.replicate m ff ++ 0xfe :: rest)))
      (Pending env a4 ff { v.feed rest with loopCNT := 0 }) := by
  obtain ⟨late, bad, hn⟩ := h.token
  have hm : m.val < Sd.nAC.toNat := m.isLt
  refine (answered hn h.counts (counts_running h.counts) hcs h0 hm).trans
    (Leads.one (fun s hs => hs.toStill.running (counts_running h.counts)) fun s hs => ?_)
  have hE := poll_next hn hs.toStill (succ_ne_zero (by omega)) (by decide)
  rw [show (s.sdIn env).spiRXD = 0xfe from hs.isRx rfl, if_pos (by decide)] at hE
  refine hs.toStill.pending hE rfl rfl rfl rfl ?_
  change _ = { { v.feed rest with loopCNT := BitVec.ofNat 16 (m.val + 1) } with loopCNT := 0 }
  rw [← hs.view]
  rfl

/-- The card has accepted a command to send the block of the sector. -/
def View.sending (v : View) : View :=
  v.addressed 17 { v.card with listen := .command [], commands := v.card.commands + 1 }

/-- The card is asked for a block and begins to send it. -/
theorem block_requested (h : Addresses a0 a1 a2 a3 17) (ht : AwaitsToken a3 a4)
    (hready : v.card.Ready) :
    Comes env (Still env false 0 a0 v)
      (Pending env a4 ff (v.sending.feed (v.card.blockBytes env.timing v.sectADDR))) := by
  have haddr : Card.address (sectorCommand v.sectADDR 17) = v.sectADDR :=
    Sd.address_sectorCommand _ _
  have hcard : v.addressed 17 (v.card.accept env.timing (sectorCommand v.sectADDR 17)) =
      v.sending.feed (List.replicate (env.timing.ncr v.card.commands) ff ++ 0x00 ::
        (List.replicate (env.timing.nac v.card.commands) ff ++ 0xfe ::
          v.card.blockBytes env.timing v.sectADDR)) := by
    have hop : (sectorCommand v.sectADDR 17).getD 0 0 = 0x51 := rfl
    simp only [Card.accept, if_pos hop, haddr, Card.response, List.append_assoc, List.cons_append,
      List.nil_append]
    rfl
  have hsent : Comes env (Still env false 0 a0 v) _ := h.sent hready
  rw [hcard] at hsent
  exact (hsent.trans (h.taken rfl rfl)).trans (ht.taken (v := v.sending) rfl rfl)

end Addresses

/-! ## The end of a half sector -/

section Ends

variable {a b c d : Sd.State} {op : SpiOp}

/-- The transfer goes on with the next half sector. -/
def View.goesOn (env : Env) (v : View) : Bool :=
  !(v.sectCNT && v.wc == 0) && env.request (v.sectADDR + 1)

/-- The view with the next half sector. -/
def View.nextSector (v : View) : View :=
  { v with sectCNT := !v.sectCNT, sectADDR := v.sectADDR + 1, cs := true }

/-- The view at the end of the transfer. -/
def View.finished (v : View) : View :=
  { v with
    sectCNT := false
    sectADDR := if v.sectCNT && v.wc == 0 then v.sectADDR else v.sectADDR + 1
    loopCNT := 0
    cs := true }

/-- The states `a`, `b` and `c` end a half sector; `d` begins one. -/
structure EndsSector (a b c d : Sd.State) (op : SpiOp) : Prop where
  running : a ≠ .done ∧ b ≠ .done ∧ c ≠ .done
  notTr : op ≠ .tr
  count : ∀ (sd : Sd) (i : Sd.In), sd.state = a →
    sd.next i = sd.quiet.onDone i ({ sd.quiet with spiOP := op }.endSector i b)
  pass : ∀ (sd : Sd) (i : Sd.In), sd.state = b → sd.next i = { sd.quiet with state := c }
  decide : ∀ (sd : Sd) (i : Sd.In), sd.state = c → sd.next i = sd.quiet.nextSector i d

/-- The drive requests the transfer at the controller's sector address. -/
theorem requested_iff : s.sd.quiet.requested (s.sdIn env) = env.request s.sd.sectADDR := by
  have hscan : s.sd.sdSCAN.toNat < 8 := s.sd.sdSCAN.isLt
  unfold Sd.requested
  change (if env.request s.sd.sectADDR then BitVec.allOnes 8 else 0).getLsbD s.sd.sdSCAN.toNat = _
  cases env.request s.sd.sectADDR with
  | false => exact BitVec.getLsbD_zero
  | true => exact (BitVec.getLsbD_allOnes).trans (decide_eq_true hscan)

theorem endSector_last {sd : Sd} {i : Sd.In} (h : (sd.sectCNT && i.rhWC == 0) = true) :
    sd.endSector i b =
      { sd with sdINCSECT := sd.sectCNT, sectCNT := false, loopCNT := 0, state := .fini } :=
  if_pos h

theorem endSector_next {sd : Sd} {i : Sd.In} (h : ¬ (sd.sectCNT && i.rhWC == 0) = true) :
    sd.endSector i b =
      { sd with
        sdINCSECT := sd.sectCNT
        sectCNT := !sd.sectCNT
        sectADDR := sd.sectADDR + 1
        state := b } :=
  if_neg h

/-- The half sector ends. -/
theorem EndsSector.ends (h : EndsSector a b c d op) (hcs : op.select v.cs = true) :
    Comes env (Done env rx a v) (fun s => if v.goesOn env then At env d v.nextSector s
      else At env .fini v.finished s) := by
  obtain ⟨ha, hb, hc⟩ := h.running
  by_cases hlast : (v.sectCNT && v.wc == 0) = true
  · have hstop : v.goesOn env = false := by rw [View.goesOn, hlast]; rfl
    refine Leads.one (fun s hs => hs.toStill.running ha) fun s hs => ?_
    rw [hstop, if_neg Bool.false_ne_true]
    have hlast' : (s.sd.sectCNT && (s.sdIn env).rhWC == 0) = true := by
      rw [show s.sd.sectCNT = v.sectCNT by rw [← hs.view]; rfl,
        show (s.sdIn env).rhWC = v.wc from hs.wc]
      exact hlast
    have hE := h.count s.sd (s.sdIn env) hs.state
    rw [Sd.onDone, show (s.sdIn env).spiDONE = true from hs.isDone, if_pos rfl] at hE
    refine hs.toStill.awake (hE.trans (endSector_last hlast')) h.notTr rfl rfl rfl rfl rfl ?_
    have hv : v.finished = { v with sectCNT := false, loopCNT := 0, cs := op.select v.cs } := by
      rw [hcs, View.finished, if_pos hlast]
    rw [hv, ← hs.view]
    rfl
  · have hcount : Comes env (Done env rx a v) (At env b v.nextSector) := by
      refine Leads.one (fun s hs => hs.toStill.running ha) fun s hs => ?_
      have hlast' : ¬ (s.sd.sectCNT && (s.sdIn env).rhWC == 0) = true := by
        rw [show s.sd.sectCNT = v.sectCNT by rw [← hs.view]; rfl,
          show (s.sdIn env).rhWC = v.wc from hs.wc]
        exact hlast
      have hE := h.count s.sd (s.sdIn env) hs.state
      rw [Sd.onDone, show (s.sdIn env).spiDONE = true from hs.isDone, if_pos rfl] at hE
      refine hs.toStill.awake (hE.trans (endSector_next hlast')) h.notTr rfl rfl rfl rfl rfl ?_
      have hv : v.nextSector = { v with
          sectCNT := !v.sectCNT, sectADDR := v.sectADDR + 1, cs := op.select v.cs } := by
        rw [hcs, View.nextSector]
      rw [hv, ← hs.view]
      rfl
    have hpass : Comes env (At env b v.nextSector) (At env c v.nextSector) := by
      refine Leads.one (fun s hs => hs.toStill.running hb) fun s hs => ?_
      refine hs.toStill.awake (h.pass _ _ hs.state) SpiOp.nop_ne_tr rfl rfl rfl rfl rfl ?_
      rw [← hs.view]
      rfl
    refine (hcount.trans hpass).trans (Leads.one (fun s hs => hs.toStill.running hc) fun s hs => ?_)
    have hE := h.decide s.sd (s.sdIn env) hs.state
    rw [Sd.nextSector, requested_iff, show s.sd.sectADDR = v.sectADDR + 1 from
      congrArg View.sectADDR hs.view] at hE
    by_cases hreq : env.request (v.sectADDR + 1) = true
    · rw [if_pos hreq] at hE
      have hgo : v.goesOn env = true := by
        rw [View.goesOn, Bool.eq_false_iff.mpr hlast, hreq]; rfl
      rw [hgo, if_pos rfl]
      refine hs.toStill.awake hE SpiOp.nop_ne_tr rfl rfl rfl rfl rfl ?_
      rw [← hs.view]
      rfl
    · rw [if_neg hreq] at hE
      have hgo : v.goesOn env = false := by
        rw [View.goesOn, Bool.eq_false_iff.mpr hreq, Bool.and_false]
      rw [hgo, if_neg Bool.false_ne_true]
      refine hs.toStill.awake hE SpiOp.nop_ne_tr rfl rfl rfl rfl rfl ?_
      have hv : v.finished = { v.nextSector with loopCNT := 0, sectCNT := false } := by
        rw [View.finished, if_neg hlast, View.nextSector]
      rw [hv, ← hs.view]
      rfl

/-- The transfer finishes: one byte with the chip select negated, then the acknowledge. -/
theorem finishes (hcs : v.cs = true) (h0 : v.loopCNT = 0) :
    Comes env (At env .fini v) (At env .done v) := by
  have hn : ∀ (sd : Sd) (i : Sd.In), sd.state = .fini →
      sd.next i = sd.quiet.oneByte i ff (sd.quiet.goto .ackrp) :=
    fun sd i h => by simp only [Sd.next, h]
  have hbyte : Comes env (At env .fini v) (Done env v.rx .fini { v with loopCNT := 1 }) := by
    have : Comes env (Still env false 0 .fini v) _ := oneByte_passes rfl (by decide) hn h0
    rw [View.exchanged, if_pos (show ({ v with loopCNT := 1 } : View).cs = true from hcs)] at this
    exact Leads.mono_left (fun s hs => hs.toStill) this
  have hend : Comes env (Done env v.rx .fini { v with loopCNT := 1 }) (At env .ackrp v) := by
    refine Leads.one (fun s hs => hs.toStill.running (by decide)) fun s hs => ?_
    have hE := oneByte_next hn hs.toStill (by decide : (1 : BitVec 16) ≠ 0)
    refine hs.toStill.awake hE SpiOp.nop_ne_tr rfl rfl rfl rfl rfl ?_
    rw [show v = { ({ v with loopCNT := 1 } : View) with loopCNT := 0 } by rw [← h0]]
    rw [← hs.view]
    rfl
  refine (hbyte.trans hend).trans
    (Leads.one (fun s hs => hs.toStill.running (by decide)) fun s hs => ?_)
  have hE : s.sd.next (s.sdIn env) =
      { s.sd.quiet with rpSDACK := 1#8 <<< s.sd.sdSCAN.toNat, state := .done } := by
    simp only [Sd.next, hs.state]
    rfl
  refine hs.toStill.awake hE SpiOp.nop_ne_tr rfl rfl rfl rfl rfl ?_
  rw [← hs.view]
  rfl

/-- The half sector ends and the next one begins. -/
theorem EndsSector.next (h : EndsSector a b c d op) (hcs : op.select v.cs = true)
    (hgo : v.goesOn env = true) : Comes env (Done env rx a v) (At env d v.nextSector) :=
  (h.ends hcs).mono_right fun s hs => by rwa [hgo, if_pos rfl] at hs

/-- The half sector ends the transfer. -/
theorem EndsSector.last (h : EndsSector a b c d op) (hcs : op.select v.cs = true)
    (hstop : ¬ v.goesOn env = true) : Comes env (Done env rx a v) (At env .done v.finished) :=
  ((h.ends hcs).mono_right fun s hs => by rwa [if_neg hstop] at hs).trans (finishes rfl rfl)

end Ends

/-! ## Counting half sectors -/

section Halves

variable {a : BitVec 32} {r j : Nat}

/-- The transfer ends after half sector number `j` of a transfer of `r` words. -/
def stops (env : Env) (a : BitVec 32) (r j : Nat) : Prop :=
  j % 2 = 1 ∧ r ≤ 64 * (j + 1) ∨ env.request (a + BitVec.ofNat 32 (j + 1)) = false

/-- The registers that count half sectors, in half sector number `j` from `a` on. -/
structure InHalf (a : BitVec 32) (j : Nat) (v : View) : Prop where
  sectCNT : v.sectCNT = decide (j % 2 = 1)
  sectADDR : v.sectADDR = a + BitVec.ofNat 32 j

theorem InHalf.nextSector (h : InHalf a j v) : InHalf a (j + 1) v.nextSector where
  sectCNT := by
    change (!v.sectCNT) = _
    rw [h.sectCNT, ← decide_not]
    exact decide_eq_decide.mpr (by omega)
  sectADDR := by
    change v.sectADDR + 1 = _
    rw [h.sectADDR, BitVec.ofNat_add, ← BitVec.add_assoc]
    rfl

theorem goesOn_iff (h : InHalf a j v) (hr : r < 2 ^ 15)
    (hwc : v.wc = RhWc.left (r - 64 * (j + 1))) : v.goesOn env = true ↔ ¬ stops env a r j := by
  have hzero : (v.wc == 0) = decide (r ≤ 64 * (j + 1)) := by
    rw [hwc, beq_eq_decide]
    refine decide_eq_decide.mpr ((RhWc.left_eq_zero (by omega)).trans ?_)
    omega
  have hnext : v.sectADDR + 1 = a + BitVec.ofNat 32 (j + 1) := h.nextSector.sectADDR
  rw [View.goesOn, h.sectCNT, hzero, hnext, stops]
  cases env.request (a + BitVec.ofNat 32 (j + 1)) with
  | false => simp
  | true =>
      simp
      omega

/-- Every transfer stops. -/
theorem exists_last (env : Env) (a : BitVec 32) (r : Nat) :
    ∃ last, stops env a r last ∧ ∀ j, j < last → ¬ stops env a r j := by
  refine exists_first ⟨2 * (r / 128) + 1, Or.inl ⟨?_, ?_⟩⟩
  · omega
  · omega

end Halves

/-! ## The end of a transfer -/

/-- The transfer that began with `s` comes to its end at clock `t`. -/
def Finishes (env : Env) (s : Xfer) (t : Nat) : Prop :=
  ((step env)^[t] s).sd.state = .done ∧ ∀ u, u < t → ((step env)^[u] s).sd.state ≠ .done

theorem Finishes.unique {t u : Nat} (ht : Finishes env s t) (hu : Finishes env s u) : t = u := by
  rcases Nat.lt_trichotomy t u with hlt | heq | hgt
  · exact absurd ht.1 (hu.2 t hlt)
  · exact heq
  · exact absurd hu.1 (ht.2 u hgt)

theorem comes_finishes {P Q : Xfer → Prop} (h : Comes env P Q) (hs : P s)
    (hQ : ∀ s, Q s → s.sd.state = .done) : ∃ t, Finishes env s t ∧ Q ((step env)^[t] s) := by
  obtain ⟨t, ht, hrun⟩ := h s hs
  exact ⟨t, ⟨hQ _ ht, hrun⟩, ht⟩

/-- A controller that has just accepted a request. -/
def accepted (st : Sd.State) (readop : Bool) (a : BitVec 32) (n : Nat) (ba : RhBa)
    (data : BitVec 32 → Nat → BitVec 8) : Xfer where
  sd := { Sd.reset with state := st, sdREADOP := readop, sectADDR := a }
  spi := { byte := none, spiCS := true, spiDONE := false, spiRXD := ff }
  card := { data := data, written := [], out := [], listen := .command [], commands := 0 }
  ba := ba
  wc := { rhWC := -BitVec.ofNat 16 (2 * n) }
  rhWCE := false
  writes := []
  waited := 0
  bytes := 0
  cycles := 0

/-- Of the controller only the registers of the transfer matter. -/
theorem accepted_with {st : Sd.State} {readop : Bool} {a : BitVec 32} {n : Nat} {ba : RhBa}
    {data : BitVec 32 → Nat → BitVec 8} {sd : Sd} (hstate : sd.state = st)
    (hreadop : sd.sdREADOP = readop) (hcnt : sd.sectCNT = false) (haddr : sd.sectADDR = a)
    (hop : sd.spiOP ≠ .tr) (hreq : sd.devREQO = false) (hincBA : sd.sdINCBA = false)
    (hincWC : sd.sdINCWC = false) (hsetWCE : sd.sdSETWCE = false) :
    Starts st readop a n { accepted st readop a n ba data with sd := sd } where
  state := hstate
  readop := hreadop
  sectCNT := hcnt
  sectADDR := haddr
  op := hop
  req := hreq
  incBA := hincBA
  incWC := hincWC
  setWCE := hsetWCE
  byte := rfl
  notDone := rfl
  waited := rfl
  rhWC := rfl
  card := ⟨rfl, rfl⟩
  rhWCE := rfl
  writes := rfl
  cycles := rfl

theorem accepted_starts {st : Sd.State} {readop : Bool} {a : BitVec 32} {n : Nat} {ba : RhBa}
    {data : BitVec 32 → Nat → BitVec 8} :
    Starts st readop a n (accepted st readop a n ba data) :=
  accepted_with rfl rfl rfl rfl (by decide : SpiOp.nop ≠ .tr) rfl rfl rfl rfl

/-- Everything takes the shortest time and the drive always requests the transfer. -/
def Env.prompt (mem : BitVec 16 → BitVec 36) : Env where
  byteDelay := fun _ => 0
  ackDelay := fun _ => 0
  timing := { ncr := fun _ => 0, nac := fun _ => 0, busy := fun _ => 0, crc := fun _ => (0, 0) }
  request := fun _ => true
  rhBAI := false
  mem := mem
  rpSDOP := .nop
  rpSDLSA := 0

end Xfer

end KS10
