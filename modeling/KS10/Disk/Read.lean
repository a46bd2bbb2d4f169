import KS10.Disk.Sectors
import Mathlib.Data.BitVec

/-!
# Reading from the disk

The controller reads half sector after half sector and writes each word to memory by a
DMA cycle.  `read_finishes` says what a read has done when it comes to its end: it has
written whole half sectors, with zeros for the words beyond the count.  So it is exact
(`ReadsExactly`) only if the count ends with the half sectors read (`Exact`).
-/

namespace KS10

open Clocked
open Sd (ff)

namespace Xfer

variable {env : Env} {v : View} {s : Xfer} {rx : BitVec 8} {done : Bool}

/-! ## The states of a read -/

theorem read_addresses : Addresses .read00 .read01 .read02 .read03 17 where
  counts1 := rfl
  counts2 := rfl
  isCommand := rfl
  running0 := by decide
  select := fun sd i h => by simp only [Sd.next, h]
  send := fun sd i h => by simp only [Sd.next, h]
  answer := ⟨_, _, fun sd i h => by simp only [Sd.next, h]; rfl⟩

theorem read_token : AwaitsToken .read03 .read04 where
  counts := rfl
  token := ⟨16, 17, fun sd i h => by simp only [Sd.next, h]⟩

theorem read_ends : EndsSector .read17 .read18 .read19 .read00 .nop where
  running := by decide
  notTr := nofun
  count := fun sd i h => by simp only [Sd.next, h]; rfl
  pass := fun sd i h => by simp only [Sd.next, h]
  decide := fun sd i h => by simp only [Sd.next, h]

/-! ## One word -/

/-- The eight bytes of a word are received. -/
theorem read_word (hcs : v.cs = false) (hlisten : v.card.listen = .command [])
    {l : List (BitVec 8)} {i : Nat} :
    Comes env (Pending env .read04 ff (v.feed (l.drop i)))
      (Done env (l.getD (i + 7) ff) .read11
        ((v.put (Sd.decode fun k => l.getD (i + k) ff)).feed (l.drop (i + 8)))) := by
  have h4 : Comes env (Pending env .read04 ff ((v.put v.tempDATA).feed (l.drop i))) _ :=
    receives (b := .read05) Sd.setByte0 rfl (fun sd i h => by simp only [Sd.next, h]) hcs hlisten
  have h5 := h4.trans (receives (a := .read05) (b := .read06) Sd.setByte1 rfl
    (fun sd i h => by simp only [Sd.next, h]) hcs hlisten)
  have h6 := h5.trans (receives (a := .read06) (b := .read07) Sd.setByte2 rfl
    (fun sd i h => by simp only [Sd.next, h]) hcs hlisten)
  have h7 := h6.trans (receives (a := .read07) (b := .read08) Sd.setByte3 rfl
    (fun sd i h => by simp only [Sd.next, h]) hcs hlisten)
  have h8 := h7.trans (receives (a := .read08) (b := .read09)
    (fun x b => Sd.setNibble4 x (b.extractLsb' 0 4)) rfl
    (fun sd i h => by simp only [Sd.next, h]) hcs hlisten)
  rw [Sd.setBytes] at h8
  have h9 := h8.trans (receives (a := .read09) (b := .read10) (fun x _ => x) rfl
    (fun sd i h => by simp only [Sd.next, h]; rfl) hcs hlisten)
  have h10 := h9.trans (receives (a := .read10) (b := .read11) (fun x _ => x) rfl
    (fun sd i h => by simp only [Sd.next, h]; rfl) hcs hlisten)
  have h11 := @feed_ends env .read11
    (v.put (Sd.decode fun k => l.getD (i + k) ff)) (Or.inl rfl) hcs hlisten (l.drop (i + 7))
  rw [headD_drop, List.tail_drop] at h11
  exact h10.trans h11

/-- The view after a word is counted. -/
def View.counted (env : Env) (v : View) : View :=
  { v with ba := v.ba.up env.rhBAI, wc := if v.wc != 0 then v.wc + 2 else v.wc }

/-- The word is written to memory, or zero if no words are left, and counted. -/
def View.storeWord (env : Env) (v : View) : View :=
  ({ v with devDATAO := if v.wc != 0 then v.tempDATA else 0 } : View).acked.counted env

/-- The word goes to memory. -/
theorem read_dma :
    Comes env (Done env rx .read11 v) (Still env false 0 .read13 (v.storeWord env)) := by
  have hask : Comes env (Done env rx .read11 v)
      (Acking env .read12 { v with devDATAO := if v.wc != 0 then v.tempDATA else 0 }) := by
    refine Leads.one (fun s h => h.toStill.running (by decide)) fun s h => ?_
    have hE : s.sd.next (s.sdIn env) =
        { s.sd.quiet with
          devREQO := true
          devDATAO := if v.wc != 0 then s.sd.tempDATA else 0
          state := .read12 } := by
      simp only [Sd.next, h.state, Sd.onDone]
      rw [show (s.sdIn env).spiDONE = true from h.isDone,
        show (s.sdIn env).rhWC = v.wc from h.wc, if_pos rfl]
      rfl
    refine h.toStill.acking hE SpiOp.nop_ne_tr rfl rfl rfl rfl ?_
    have htemp := h.toStill.tempDATA
    rw [← htemp, ← h.view]
    rfl
  have hcount : ∀ w : View, Comes env (Acking env .read12 w)
      (Still env false 0 .read13 (w.acked.counted env)) := by
    intro w
    refine (ack_comes (by decide) (fun sd i h => by simp only [Sd.next, h]; rfl)).trans
      (Leads.one (fun s h => h.running (by decide)) fun s h => ?_)
    have hE : s.sd.next (s.sdIn env) =
        { s.sd.quiet with sdINCBA := true, sdINCWC := w.wc != 0, state := .read13 } := by
      simp only [Sd.next, h.state, Sd.onAck]
      rw [show (s.sdIn env).devACKI = true from h.ack, if_pos rfl, Sd.count,
        show (s.sdIn env).rhWC = w.wc from h.wc]
    refine h.still hE SpiOp.nop_ne_tr rfl rfl ?_
    rw [← h.view]
    rfl
  exact hask.trans (hcount _)

/-- After a word comes the next one. -/
theorem read_again (h : Still env done rx .read13 v s) (hmore : v.loopCNT ≠ 63) :
    Pending env .read04 ff { v with loopCNT := v.loopCNT + 1 } (s.step env) := by
  have hE : s.sd.next (s.sdIn env) =
      { s.sd.quiet.transfer ff with loopCNT := s.sd.loopCNT + 1, state := .read04 } := by
    simp only [Sd.next, h.state]
    rw [Sd.quiet_loopCNT, if_neg (by simpa [h.loopCNT] using hmore)]
  refine h.pending hE rfl rfl rfl rfl ?_
  rw [← h.view]
  rfl

/-- After the last word of a half sector come the check bytes. -/
theorem read_last (h : Still env done rx .read13 v s) (hlast : v.loopCNT = 63) :
    Pending env .read14 ff v (s.step env) := by
  have hE : s.sd.next (s.sdIn env) = { s.sd.quiet.transfer ff with state := .read14 } := by
    simp only [Sd.next, h.state]
    rw [Sd.quiet_loopCNT, h.loopCNT, hlast]
    rfl
  refine h.pending hE rfl rfl rfl rfl ?_
  rw [← h.view]
  rfl

/-! ## One half sector -/

/-- The word number `k` of the sectors from `a` on. -/
def cardWord (data : BitVec 32 → Nat → BitVec 8) (a : BitVec 32) (k : Nat) : BitVec 36 :=
  Sd.decode fun j => data (a + BitVec.ofNat 32 (k / 64)) (8 * (k % 64) + j)

/-- The DMA cycles of the first `m` words of a read from `s` on, when `r` words are
requested: the rest is zero. -/
def readWrites (env : Env) (s : Xfer) (a : BitVec 32) (r m : Nat) :
    List (BitVec 16 × BitVec 36) :=
  (List.range m).map fun k =>
    ((s.ba.plus env.rhBAI k).word, if k < r then cardWord s.card.data a k else 0)

/-- What the read that began with `s` has done after `m` words. -/
structure ReadDone (env : Env) (s : Xfer) (a : BitVec 32) (r m : Nat) (v : View) : Prop where
  readop : v.sdREADOP = true
  data : v.card.data = s.card.data
  listen : v.card.listen = .command []
  ba : v.ba = s.ba.plus env.rhBAI m
  wc : v.wc = RhWc.left (r - m)
  writes : v.writes = readWrites env s a r m

variable {a : BitVec 32} {r m j k : Nat}

/-- One more word is read. -/
theorem ReadDone.word (h : ReadDone env s a r m v) (hr : r < 2 ^ 15)
    (hword : v.tempDATA = cardWord s.card.data a m) :
    ReadDone env s a r (m + 1) (v.storeWord env) where
  readop := h.readop
  data := h.data
  listen := h.listen
  ba := by
    change v.ba.up env.rhBAI = _
    rw [h.ba, RhBa.plus_up]
  wc := by
    change (if v.wc != 0 then v.wc + 2 else v.wc) = _
    rw [h.wc, RhWc.left_count (by omega), Nat.sub_sub]
  writes := by
    change (if v.sdREADOP then v.writes ++ [(v.ba.word, if v.wc != 0 then v.tempDATA else 0)]
      else v.writes) = _
    have hlt : (v.wc != 0) = decide (m < r) := by
      rw [h.wc, bne, beq_eq_decide, ← decide_not]
      refine decide_eq_decide.mpr ?_
      rw [RhWc.left_eq_zero (by omega)]
      omega
    rw [if_pos h.readop, h.writes, h.ba, hlt, hword, readWrites, readWrites, List.range_succ,
      List.map_append]
    simp

/-- The block of a half sector as the card sends it. -/
def block (data : BitVec 32 → Nat → BitVec 8) (a : BitVec 32) (crc : BitVec 8 × BitVec 8) :
    List (BitVec 8) :=
  (List.range 512).map (data a) ++ [crc.1, crc.2]

theorem block_getD {data : BitVec 32 → Nat → BitVec 8} {crc : BitVec 8 × BitVec 8} {i : Nat}
    (hi : i < 512) : (block data a crc).getD i ff = data a i := by
  rw [block, List.getD_eq_getElem?_getD, List.getElem?_append_left (by simpa using hi)]
  simp [hi]

/-- The word number `k` of a half sector is about to be received. -/
structure ReadWord (env : Env) (s₀ : Xfer) (a : BitVec 32) (r j k : Nat)
    (v : View) : Prop where
  half : InHalf a j v
  read : ReadDone env s₀ a r (64 * j + k) v
  cs : v.cs = false
  loopCNT : v.loopCNT = BitVec.ofNat 16 k

variable {s₀ : Xfer} {crc : BitVec 8 × BitVec 8} {l : List (BitVec 8)}

/-- One word is read: `k` of half sector `j`. -/
theorem ReadWord.read_next (h : ReadWord env s₀ a r j k v) (hr : r < 2 ^ 15) (hk : k < 64)
    (hl : l = block s₀.card.data (a + BitVec.ofNat 32 j) crc) :
    Comes env (Pending env .read04 ff (v.feed (l.drop (8 * k))))
      (fun s => ∃ v', InHalf a j v' ∧ ReadDone env s₀ a r (64 * j + k + 1) v' ∧
        v'.cs = false ∧ v'.loopCNT = BitVec.ofNat 16 k ∧
        Still env false 0 .read13 (v'.feed (l.drop (8 * (k + 1)))) s) := by
  have hword : (Sd.decode fun i => l.getD (8 * k + i) ff) =
      cardWord s₀.card.data a (64 * j + k) := by
    refine Sd.decode_congr fun i hi => ?_
    rw [hl, block_getD (by omega), show (64 * j + k) / 64 = j by omega,
      show (64 * j + k) % 64 = k by omega]
  have hread : Comes env (Pending env .read04 ff (v.feed (l.drop (8 * k)))) _ :=
    (read_word h.cs h.read.listen).trans read_dma
  refine hread.mono_right fun s hs =>
    ⟨(v.put (Sd.decode fun i => l.getD (8 * k + i) ff)).storeWord env, ?_, ?_, ?_, ?_, hs⟩
  · exact ⟨h.half.sectCNT, h.half.sectADDR⟩
  · exact ReadDone.word (v := v.put (Sd.decode fun i => l.getD (8 * k + i) ff))
      ⟨h.read.readop, h.read.data, h.read.listen, h.read.ba, h.read.wc, h.read.writes⟩ hr hword
  · exact h.cs
  · exact h.loopCNT

/-- The 64 words of a half sector are read. -/
theorem read_words (h : ReadWord env s₀ a r j 0 v) (hr : r < 2 ^ 15)
    (hl : l = block s₀.card.data (a + BitVec.ofNat 32 j) crc) :
    Comes env (Pending env .read04 ff (v.feed l))
      (fun s => ∃ v', InHalf a j v' ∧ ReadDone env s₀ a r (64 * (j + 1)) v' ∧ v'.cs = false ∧
        Pending env .read14 ff (v'.feed (l.drop 512)) s) := by
  let P (k : Nat) (s : Xfer) : Prop :=
    ∃ v', ReadWord env s₀ a r j k v' ∧ Pending env .read04 ff (v'.feed (l.drop (8 * k))) s
  let Q (s : Xfer) : Prop :=
    ∃ v', InHalf a j v' ∧ ReadDone env s₀ a r (64 * (j + 1)) v' ∧ v'.cs = false ∧
      Pending env .read14 ff (v'.feed (l.drop 512)) s
  have hmore : ∀ k, k < 63 → Comes env (P k) (P (k + 1)) := by
    intro k hk s ⟨v', hv', hs⟩
    refine ((hv'.read_next hr (by omega) hl).trans (Leads.one
      (fun s ⟨_, _, _, _, _, hs⟩ => hs.running (by decide))
      fun s ⟨w, hhalf, hread, hcs, hcnt, hs⟩ => ?_)) s hs
    have hmore : (w.feed (l.drop (8 * (k + 1)))).loopCNT ≠ 63 := by
      rw [show (w.feed (l.drop (8 * (k + 1)))).loopCNT = BitVec.ofNat 16 k from hcnt]
      exact ofNat_ne_last hk
    have hcnt' : w.loopCNT + 1 = BitVec.ofNat 16 (k + 1) := by
      rw [hcnt]
      exact (BitVec.ofNat_add _ _).symm
    exact ⟨{ w with loopCNT := w.loopCNT + 1 },
      ⟨⟨hhalf.sectCNT, hhalf.sectADDR⟩, ⟨hread.readop, hread.data, hread.listen, hread.ba, hread.wc,
        hread.writes⟩, hcs, hcnt'⟩, read_again hs hmore⟩
  have hlast : Comes env (P 63) Q := by
    intro s ⟨v', hv', hs⟩
    refine ((hv'.read_next hr (by omega) hl).trans (Leads.one (Q := Q)
      (fun s ⟨_, _, _, _, _, hs⟩ => hs.running (by decide))
      fun s ⟨w, hhalf, hread, hcs, hcnt, hs⟩ => ?_)) s hs
    exact ⟨w, hhalf, hread, hcs, read_last hs hcnt⟩
  intro s hs
  exact ((Leads.loop 63 hmore).trans hlast) s ⟨v, h, hs⟩

/-- The check bytes are passed and the card is deselected. -/
theorem read_tail (hcs : v.cs = false) (hlisten : v.card.listen = .command [])
    (hl : l.length = 514) :
    Comes env (Pending env .read14 ff (v.feed (l.drop 512)))
      (fun s => ∃ rx, Done env rx .read17 { v.feed [] with cs := true } s) := by
  have h14 : Comes env (Pending env .read14 ff ((v.put v.tempDATA).feed (l.drop 512))) _ :=
    receives (b := .read15) (fun x _ => x) rfl (fun sd i h => by simp only [Sd.next, h]; rfl)
      hcs hlisten
  have h15 := h14.trans (feed_ends (a := .read15) (v := v) (Or.inl rfl) hcs hlisten (l.drop 513))
  rw [headD_drop, List.tail_drop, List.drop_eq_nil_of_le (show l.length ≤ 513 + 1 by omega)] at h15
  have h16 : Comes env (Done env (l.getD 513 ff) .read15 (v.feed []))
      (At env .read16 { v.feed [] with cs := true }) := by
    refine Leads.one (fun s hs => hs.toStill.running (by decide)) fun s hs => ?_
    have hE : s.sd.next (s.sdIn env) =
        { s.sd.quiet with spiOP := .csh, spiTXD := ff, state := .read16 } := by
      simp only [Sd.next, hs.state, Sd.onDone]
      exact if_pos hs.isDone
    refine hs.toStill.awake hE SpiOp.csh_ne_tr rfl rfl rfl rfl rfl ?_
    rw [← hs.view]
    rfl
  have h17 : Comes env (At env .read16 { v.feed [] with cs := true })
      (Pending env .read17 ff { v.feed [] with cs := true }) := by
    refine Leads.one (fun s hs => hs.toStill.running (by decide)) fun s hs => ?_
    have hE : s.sd.next (s.sdIn env) = { s.sd.quiet.transfer ff with state := .read17 } := by
      simp only [Sd.next, hs.state]
    refine hs.toStill.pending hE rfl rfl rfl rfl ?_
    rw [← hs.view]
    rfl
  have hend : Comes env (Pending env .read17 ff { v.feed [] with cs := true }) _ :=
    byte_ends (Or.inl rfl)
  exact (((h15.trans h16).trans h17).trans hend).mono_right fun s hs => ⟨_, hs⟩

/-! ## The whole read -/

/-- The read is at the beginning of half sector `j`. -/
def ReadHalf (env : Env) (s₀ : Xfer) (a : BitVec 32) (r j : Nat) (s : Xfer) : Prop :=
  ∃ v, InHalf a j v ∧ ReadDone env s₀ a r (64 * j) v ∧ v.card.out = [] ∧ At env .read00 v s

/-- The read has ended after half sector `j`. -/
def ReadEnd (env : Env) (s₀ : Xfer) (a : BitVec 32) (r j : Nat) (s : Xfer) : Prop :=
  ∃ v, ReadDone env s₀ a r (64 * (j + 1)) v ∧ At env .done v s

/-- The words of half sector `j` are read and the card is deselected. -/
def ReadHalfDone (env : Env) (s₀ : Xfer) (a : BitVec 32) (r j : Nat) (s : Xfer) : Prop :=
  ∃ v rx, InHalf a j v ∧ ReadDone env s₀ a r (64 * (j + 1)) v ∧ v.card.out = [] ∧ v.cs = true ∧
    Done env rx .read17 v s

theorem read_half (hr : r < 2 ^ 15) :
    Comes env (ReadHalf env s₀ a r j) (ReadHalfDone env s₀ a r j) := by
  rintro s ⟨v, hhalf, hread, hout, hs⟩
  let l := block s₀.card.data (a + BitVec.ofNat 32 j) (env.timing.crc v.card.commands)
  have hblock : v.card.blockBytes env.timing v.sectADDR = l := by
    rw [Card.blockBytes, hread.data, hhalf.sectADDR]
    rfl
  have hbegin : Comes env (Still env false 0 .read00 v) _ :=
    block_requested read_addresses read_token ⟨hout, hread.listen⟩
  rw [hblock] at hbegin
  have hword : ReadWord env s₀ a r j 0 v.sending :=
    ⟨⟨hhalf.sectCNT, hhalf.sectADDR⟩, ⟨hread.readop, hread.data, rfl, hread.ba, hread.wc,
      hread.writes⟩, rfl, rfl⟩
  refine ((hbegin.trans (read_words hword hr rfl)).trans ?_) s hs.toStill
  rintro s ⟨w, hhalf', hread', hcs, hs⟩
  refine ((read_tail hcs hread'.listen (by simp [l, block])).mono_right ?_) s hs
  rintro s ⟨rx, hs⟩
  exact ⟨{ w.feed [] with cs := true }, rx, ⟨hhalf'.sectCNT, hhalf'.sectADDR⟩,
    ⟨hread'.readop, hread'.data, hread'.listen, hread'.ba, hread'.wc, hread'.writes⟩, rfl, rfl, hs⟩

theorem read_next (hr : r < 2 ^ 15) (hgo : ¬ stops env a r j) :
    Comes env (ReadHalf env s₀ a r j) (ReadHalf env s₀ a r (j + 1)) := by
  refine (read_half hr).trans ?_
  intro s ⟨v, rx, hhalf, hread, hout, hcs, hs⟩
  refine ((read_ends.next hcs ((goesOn_iff hhalf hr hread.wc).mpr hgo)).mono_right ?_) s hs
  intro s hs
  exact ⟨v.nextSector, hhalf.nextSector,
    ⟨hread.readop, hread.data, hread.listen, hread.ba, hread.wc, hread.writes⟩, hout, hs⟩

theorem read_stop (hr : r < 2 ^ 15) (hstop : stops env a r j) :
    Comes env (ReadHalf env s₀ a r j) (ReadEnd env s₀ a r j) := by
  refine (read_half hr).trans ?_
  intro s ⟨v, rx, hhalf, hread, hout, hcs, hs⟩
  have hno : ¬ v.goesOn env = true := fun h => (goesOn_iff hhalf hr hread.wc).mp h hstop
  refine ((read_ends.last hcs hno).mono_right ?_) s hs
  intro s hs
  exact ⟨v.finished, ⟨hread.readop, hread.data, hread.listen, hread.ba, hread.wc, hread.writes⟩, hs⟩

/-- A read begins with its first half sector. -/
theorem Starts.readHalf {n : Nat} (h : Starts .read00 true a n s) :
    ReadHalf env s a (n % 2 ^ 15) 0 s :=
  ⟨s.view env, ⟨h.sectCNT, h.view_sectADDR⟩,
    ⟨h.readop, rfl, h.card.listen, h.view_ba, h.view_wc, h.writes⟩, h.card.out, h.at⟩

/-- A read comes to its end: what it has done then depends only on the words requested and
on the half sectors that the drive requests. -/
theorem read_comes {n last : Nat} (h : Starts .read00 true a n s)
    (hstop : stops env a (n % 2 ^ 15) last)
    (hfirst : ∀ j, j < last → ¬ stops env a (n % 2 ^ 15) j) :
    Comes env (· = s) (ReadEnd env s a (n % 2 ^ 15) last) := by
  have hr : n % 2 ^ 15 < 2 ^ 15 := Nat.mod_lt _ (by decide)
  have hnext (j : Nat) (hj : ¬ stops env a (n % 2 ^ 15) j) :
      Comes env (ReadHalf env s a (n % 2 ^ 15) j) (ReadHalf env s a (n % 2 ^ 15) (j + 1)) :=
    read_next hr hj
  have hrun := Leads.loop_until hstop hfirst hnext fun j => read_stop hr
  exact Leads.mono_left (by rintro _ rfl; exact h.readHalf) hrun

/-- What the registers and the DMA cycles of a read are at its end. -/
theorem read_finishes {n last : Nat} (h : Starts .read00 true a n s)
    (hstop : stops env a (n % 2 ^ 15) last)
    (hfirst : ∀ j, j < last → ¬ stops env a (n % 2 ^ 15) j) :
    ∃ t, Finishes env s t ∧
      ((step env)^[t] s).writes = readWrites env s a (n % 2 ^ 15) (64 * (last + 1)) ∧
      ((step env)^[t] s).wc.rhWC = RhWc.left (n % 2 ^ 15 - 64 * (last + 1)) ∧
      ((step env)^[t] s).ba = s.ba.plus env.rhBAI (64 * (last + 1)) := by
  obtain ⟨t, ht, v, hread, hend⟩ :=
    comes_finishes (read_comes h hstop hfirst) rfl fun s ⟨_, _, hend⟩ => hend.state
  refine ⟨t, ht, ?_, hend.wc.trans hread.wc, hend.ba.trans hread.ba⟩
  rw [← hread.writes, ← hend.view]
  rfl

/-! ## Exactness -/

/-- The read comes to its end and has written exactly the `n` words of the card, in order,
to the words of the memory from the bus address on; the registers have counted them. -/
def ReadsExactly (env : Env) (s : Xfer) (a : BitVec 32) (n : Nat) : Prop :=
  ∃ t, Finishes env s t ∧
    ((step env)^[t] s).writes =
      ((List.range n).map fun k => (s.ba.word + BitVec.ofNat 16 k, cardWord s.card.data a k)) ∧
    ((step env)^[t] s).wc.rhWC = 0 ∧
    ((step env)^[t] s).ba.rhBA = s.ba.rhBA + BitVec.ofNat 18 (4 * n)

/-- The words fill half sectors, the drive requests each of them, and it does not request
more than a whole number of sectors needs. -/
structure Exact (env : Env) (a : BitVec 32) (n : Nat) : Prop where
  rhBAI : env.rhBAI = false
  bound : n < 2 ^ 15
  full : 64 ∣ n
  requested : ∀ k, 1 ≤ k → k < n / 64 → env.request (a + BitVec.ofNat 32 k) = true
  even : 128 ∣ n ∨ env.request (a + BitVec.ofNat 32 (n / 64)) = false

/-- A read transfers whole half sectors. -/
theorem ReadsExactly.half {n : Nat} (h : Starts .read00 true a n s)
    (hread : ReadsExactly env s a n) : ∃ last, n = 64 * (last + 1) ∧
      stops env a (n % 2 ^ 15) last ∧ ∀ j, j < last → ¬ stops env a (n % 2 ^ 15) j := by
  obtain ⟨last, hstop, hfirst⟩ := exists_last env a (n % 2 ^ 15)
  obtain ⟨t, ht, hwrites, _⟩ := read_finishes h hstop hfirst
  obtain ⟨u, hu, hexact, _⟩ := hread
  obtain rfl := ht.unique hu
  refine ⟨last, ?_, hstop, hfirst⟩
  have hlen := congrArg List.length (hexact.symm.trans hwrites)
  simpa [readWrites] using hlen

theorem ReadsExactly.exact {n : Nat} (h : Starts .read00 true a n s)
    (hread : ReadsExactly env s a n) : Exact env a n := by
  obtain ⟨last, hn, hstop, hfirst⟩ := hread.half h
  have hbound : n < 2 ^ 15 := by
    have hodd : stops env a (n % 2 ^ 15) (2 * (n % 2 ^ 15 / 128) + 1) :=
      Or.inl ⟨by omega, by omega⟩
    have hle : last ≤ 2 * (n % 2 ^ 15 / 128) + 1 := Nat.le_of_not_lt fun hlt => hfirst _ hlt hodd
    omega
  have hr : n % 2 ^ 15 = n := Nat.mod_eq_of_lt hbound
  have hdiv : n / 64 = last + 1 := by omega
  rw [hr] at hstop hfirst
  refine ⟨?_, hbound, ⟨last + 1, hn⟩, fun k hk hlt => ?_, ?_⟩
  · obtain ⟨l, hstop', hfirst'⟩ := exists_last env a (n % 2 ^ 15)
    obtain ⟨t, ht, _, _, hba⟩ := read_finishes h hstop' hfirst'
    obtain ⟨u, hu, _, _, hrhBA⟩ := hread
    obtain rfl := ht.unique hu
    by_contra hbai
    rw [hba, RhBa.plus, if_pos (by simpa using hbai)] at hrhBA
    have := congrArg BitVec.toNat hrhBA
    rw [BitVec.toNat_add, BitVec.toNat_ofNat] at this
    have hlt := s.ba.rhBA.isLt
    omega
  · have hgo := hfirst (k - 1) (by omega)
    rw [stops, not_or, Nat.sub_add_cancel hk] at hgo
    simpa using hgo.2
  · rw [hdiv]
    rcases hstop with ⟨hodd, _⟩ | hno
    · exact Or.inl (by omega)
    · exact Or.inr hno

theorem Exact.reads {n : Nat} (h : Starts .read00 true a n s) (hn : 1 ≤ n) (hx : Exact env a n) :
    ReadsExactly env s a n := by
  have hr : n % 2 ^ 15 = n := Nat.mod_eq_of_lt hx.bound
  obtain ⟨m, hm⟩ := hx.full
  obtain ⟨last, rfl⟩ : ∃ last, m = last + 1 := ⟨m - 1, by omega⟩
  have hdiv : n / 64 = last + 1 := by omega
  have hstop : stops env a (n % 2 ^ 15) last := by
    rw [hr]
    rcases hx.even with hodd | hno
    · exact Or.inl ⟨by omega, by omega⟩
    · exact Or.inr (hdiv ▸ hno)
  have hfirst : ∀ j, j < last → ¬ stops env a (n % 2 ^ 15) j := by
    intro j hj hstop'
    rw [hr] at hstop'
    rcases hstop' with ⟨_, hle⟩ | hno
    · omega
    · rw [hx.requested (j + 1) (by omega) (by omega)] at hno
      cases hno
  obtain ⟨t, ht, hwrites, hwc, hba⟩ := read_finishes h hstop hfirst
  rw [← hm, hr, hx.rhBAI] at *
  refine ⟨t, ht, ?_, ?_, ?_⟩
  · rw [hwrites, readWrites]
    refine List.map_congr_left fun k hk => ?_
    rw [if_pos (List.mem_range.mp hk), hx.rhBAI, RhBa.word_plus]
  · rw [hwc, Nat.sub_self]
    rfl
  · rw [hba, RhBa.rhBA_plus]

/-- A read transfers exactly the words requested just under the conditions of `Exact`: it
goes on to the end of a sector, or of the half sector after which the drive takes back its
request, and writes zeros to memory after the words requested. -/
theorem read_exact_iff {n : Nat} (h : Starts .read00 true a n s) (hn : 1 ≤ n) :
    ReadsExactly env s a n ↔ Exact env a n :=
  ⟨fun hread => hread.exact h, fun hx => hx.reads h hn⟩

/-- A whole sector is read exactly. -/
theorem read_exact_iff_sector :
    ReadsExactly (.prompt 0) (accepted .read00 true 0 128 { addr := 0 } 0) 0 128 :=
  (read_exact_iff accepted_starts (by decide)).mpr
    ⟨rfl, by decide, by decide, fun _ _ _ => rfl, Or.inl (by decide)⟩

/-- A read of one word writes more than the word. -/
theorem read_overruns :
    Starts .read00 true 0 1 (accepted .read00 true 0 1 { addr := 0 } 0) ∧
    ¬ ReadsExactly (.prompt 0) (accepted .read00 true 0 1 { addr := 0 } 0) 0 1 := by
  refine ⟨accepted_starts, fun hread => ?_⟩
  obtain ⟨last, hlast, _⟩ := hread.half accepted_starts
  omega

end Xfer

end KS10
