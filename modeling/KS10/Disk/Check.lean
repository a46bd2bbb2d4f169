import KS10.Disk.Overlap
import Mathlib.Data.BitVec

/-!
# Write checks

A write check reads half sector after half sector, as a read does, and compares each word
with the one in memory.  What it compares is not the word on the card (`seen`): the second
byte comes from what the word register held before, because the byte received goes to the
output register instead, and an acknowledge that takes longer than an SPI byte shifts the
bytes of the words after it.  A check of the header compares the first header word twice.

`check_finishes` says what the write check error is when a check comes to its end.
-/

namespace KS10

open Clocked
open Sd (ff)

namespace Xfer

variable {env : Env} {v v₀ : View} {s : Xfer} {rx : BitVec 8} {d : Nat}

/-! ## The states of a write check -/

/-- The second byte goes to the output register. -/
theorem check_astray (hcs : v.cs = false) (hlisten : v.card.listen = .command [])
    {l : List (BitVec 8)} {i : Nat} :
    Comes env (Pending env .wrchk05 ff (v.feed (l.drop i)))
      (Pending env .wrchk06 ff
        (({ v with devDATAO := Sd.setByte1 v.devDATAO (l.getD i ff) } : View).feed
          (l.drop (i + 1)))) := by
  have hends : Comes env (Pending env .wrchk05 ff (v.feed (l.drop i))) _ :=
    feed_ends (Or.inl rfl) hcs hlisten (l.drop i)
  rw [headD_drop, List.tail_drop] at hends
  refine hends.trans (Leads.one (fun s h => h.toStill.running (by decide)) fun s h => ?_)
  have hE : s.sd.next (s.sdIn env) =
      { s.sd.quiet.transfer ff with
        devDATAO := Sd.setByte1 s.sd.devDATAO (l.getD i ff)
        state := .wrchk06 } := by
    simp only [Sd.next, h.state, Sd.receive, Sd.onDone]
    rw [show (s.sdIn env).spiDONE = true from h.isDone, if_pos rfl,
      show (s.sdIn env).spiRXD = l.getD i ff from h.isRx rfl]
    rfl
  refine h.toStill.pending hE rfl rfl rfl rfl ?_
  have hout : s.sd.devDATAO = v.devDATAO := by
    have hsame : (s.view env).devDATAO = (v.feed (l.drop (i + 1))).devDATAO := by rw [h.view]
    exact hsame
  have hput : ({ v with devDATAO := Sd.setByte1 v.devDATAO (l.getD i ff) } : View).feed
      (l.drop (i + 1)) =
        { v.feed (l.drop (i + 1)) with devDATAO := Sd.setByte1 v.devDATAO (l.getD i ff) } := rfl
  rw [hout, hput, ← h.view]
  generalize Sd.setByte1 v.devDATAO (l.getD i ff) = x
  rfl

/-- The word that the controller puts together from the bytes of `l` from `i` on: its
second byte is the old one. -/
def seenWord (old : BitVec 8) (l : List (BitVec 8)) (i : Nat) : BitVec 36 :=
  Sd.setByte1 (Sd.decode fun k => l.getD (i + k) ff) old

theorem byte1_seenWord {old : BitVec 8} {l : List (BitVec 8)} {i : Nat} :
    Sd.byte1 (seenWord old l i) = old :=
  Sd.byte1_wordOf

theorem setBytes_seenWord {x : BitVec 36} {l : List (BitVec 8)} {i : Nat}
    (h : Sd.byte0 x = l.getD i ff) :
    Sd.setNibble4 (Sd.setByte3 (Sd.setByte2 x (l.getD (i + 2) ff)) (l.getD (i + 3) ff))
      ((l.getD (i + 4) ff).extractLsb' 0 4) = seenWord (Sd.byte1 x) l i := by
  simp only [seenWord, Sd.decode, Sd.setNibble4, Sd.setByte3, Sd.setByte2, Sd.setByte1,
    Sd.byte0_wordOf, Sd.byte1_wordOf, Sd.byte2_wordOf, Sd.byte3_wordOf, Sd.nibble4_wordOf, h,
    Nat.add_zero]

/-- The view when the bytes of a word are received. -/
def View.assembled (v : View) (l : List (BitVec 8)) (i : Nat) : View :=
  { v with
    tempDATA := seenWord (Sd.byte1 v.tempDATA) l i
    devDATAO := Sd.setByte1 v.devDATAO (l.getD (i + 1) ff) }

/-- The bytes of a word after the first are received. -/
theorem check_word (hcs : v.cs = false) (hlisten : v.card.listen = .command [])
    {l : List (BitVec 8)} {i : Nat} (hfirst : Sd.byte0 v.tempDATA = l.getD i ff) :
    Comes env (Pending env .wrchk05 ff (v.feed (l.drop (i + 1))))
      (Done env (l.getD (i + 7) ff) .wrchk11 ((v.assembled l i).feed (l.drop (i + 8)))) := by
  let w : View := { v with devDATAO := Sd.setByte1 v.devDATAO (l.getD (i + 1) ff) }
  have hcs' : w.cs = false := hcs
  have hlisten' : w.card.listen = .command [] := hlisten
  have h5 : Comes env (Pending env .wrchk05 ff (v.feed (l.drop (i + 1))))
      (Pending env .wrchk06 ff ((w.put v.tempDATA).feed (l.drop (i + 2)))) :=
    check_astray hcs hlisten
  have h6 := h5.trans (receives (a := .wrchk06) (b := .wrchk07) Sd.setByte2 rfl
    (fun sd i h => by simp only [Sd.next, h]) hcs' hlisten')
  have h7 := h6.trans (receives (a := .wrchk07) (b := .wrchk08) Sd.setByte3 rfl
    (fun sd i h => by simp only [Sd.next, h]) hcs' hlisten')
  have h8 := h7.trans (receives (a := .wrchk08) (b := .wrchk09)
    (fun x b => Sd.setNibble4 x (b.extractLsb' 0 4)) rfl
    (fun sd i h => by simp only [Sd.next, h]) hcs' hlisten')
  rw [setBytes_seenWord hfirst] at h8
  have h9 := h8.trans (receives (a := .wrchk09) (b := .wrchk10) (fun x _ => x) rfl
    (fun sd i h => by simp only [Sd.next, h]; rfl) hcs' hlisten')
  have h10 := h9.trans (receives (a := .wrchk10) (b := .wrchk11) (fun x _ => x) rfl
    (fun sd i h => by simp only [Sd.next, h]; rfl) hcs' hlisten')
  have h11 := @feed_ends env .wrchk11 (v.assembled l i) (Or.inl rfl) hcs hlisten
    (l.drop (i + 7))
  rw [headD_drop, List.tail_drop] at h11
  exact h10.trans h11

/-! ## The comparison -/

/-- The view after a word is counted, and compared if words are left. -/
def View.judged (env : Env) (v : View) (k : BitVec 16) : View :=
  if v.wc = 0 then { v.counted env with loopCNT := k } else v.checked env k

/-- The bytes that are lost beside the DMA cycle of a word. -/
def View.slips (env : Env) (d : Nat) (v : View) : Nat :=
  if v.wc = 0 then 0 else slip d (env.ackDelay v.cycles)

section Judged

variable {n : BitVec 16}

theorem judged_sectCNT : (v.judged env n).sectCNT = v.sectCNT := by
  unfold View.judged
  split <;> rfl

theorem judged_sectADDR : (v.judged env n).sectADDR = v.sectADDR := by
  unfold View.judged
  split <;> rfl

theorem judged_cs : (v.judged env n).cs = v.cs := by
  unfold View.judged
  split <;> rfl

theorem judged_loopCNT : (v.judged env n).loopCNT = n := by
  unfold View.judged
  split <;> rfl

theorem judged_card : (v.judged env n).card = v.card := by
  unfold View.judged
  split <;> rfl

end Judged

section Compare

variable {k : BitVec 16} {b c : Sd.State} {g : BitVec 36 → BitVec 8 → BitVec 36}
  {l : List (BitVec 8)}

/-- No word is left to compare. -/
theorem check_skips (hwc : v.wc = 0) (hcs : v.cs = false) (hlisten : v.card.listen = .command [])
    (hcount : ∀ (sd : Sd) (i : Sd.In), sd.state = .wrchk13 → sd.loopCNT = v.loopCNT →
      sd.next i = { (sd.quiet.count i).transfer ff with loopCNT := k, state := b })
    (hb : Sd.takes b = true)
    (hn : ∀ (sd : Sd) (i : Sd.In), sd.state = b → sd.next i =
      sd.quiet.receive i c fun s => { s with tempDATA := g s.tempDATA i.spiRXD }) :
    Comes env (Done env rx .wrchk11 (v.feed l))
      (Pending env c ff ((({ v.counted env with loopCNT := k } : View).put
        (g v.tempDATA (l.getD 0 ff))).feed (l.drop 1))) := by
  have hpass : Comes env (Done env rx .wrchk11 (v.feed l)) (At env .wrchk13 (v.feed l)) := by
    refine Leads.one (fun s h => h.toStill.running (by decide)) fun s h => ?_
    have hE : s.sd.next (s.sdIn env) = { s.sd.quiet with state := .wrchk13 } := by
      simp only [Sd.next, h.state, Sd.onDone]
      rw [show (s.sdIn env).spiDONE = true from h.isDone, if_pos rfl,
        show (s.sdIn env).rhWC = v.wc from h.wc, hwc]
      rfl
    refine h.toStill.awake hE SpiOp.nop_ne_tr rfl rfl rfl rfl rfl ?_
    rw [← h.view]
    rfl
  let w : View := { v.counted env with loopCNT := k }
  have hcounts : Comes env (At env .wrchk13 (v.feed l))
      (Pending env b ff ((w.put v.tempDATA).feed (l.drop 0))) := by
    refine Leads.one (fun s h => h.toStill.running (by decide)) fun s h => ?_
    have hE := hcount s.sd (s.sdIn env) h.state h.toStill.loopCNT
    rw [Sd.count, show (s.sdIn env).rhWC = v.wc from h.wc, hwc] at hE
    refine h.toStill.pending hE rfl rfl rfl rfl ?_
    have hw : (w.put v.tempDATA).feed (l.drop 0) =
        { v.feed l with
          loopCNT := k
          ba := (v.feed l).ba.up env.rhBAI
          wc := if v.wc != 0 then (v.feed l).wc + 2 else (v.feed l).wc } := rfl
    rw [hw, hwc, ← h.view]
    rfl
  have hcs' : w.cs = false := hcs
  have hlisten' : w.card.listen = .command [] := hlisten
  exact (hpass.trans hcounts).trans (receives g hb hn hcs' hlisten')

/-- The word is judged and counted, and the first byte of what follows is taken. -/
theorem check_judges (hd : ∀ n, env.byteDelay n = d) (hreadop : v.sdREADOP = false)
    (hcs : v.cs = false) (hlisten : v.card.listen = .command [])
    (hcount : ∀ (sd : Sd) (i : Sd.In), sd.state = .wrchk13 → sd.loopCNT = v.loopCNT →
      sd.next i = { (sd.quiet.count i).transfer ff with loopCNT := k, state := b })
    (hb : Sd.takes b = true)
    (hn : ∀ (sd : Sd) (i : Sd.In), sd.state = b → sd.next i =
      sd.quiet.receive i c fun s => { s with tempDATA := g s.tempDATA i.spiRXD }) :
    Comes env (Done env rx .wrchk11 (v.feed l))
      (Pending env c ff (((v.judged env k).put
        (g v.tempDATA (l.getD (v.slips env d) ff))).feed (l.drop (v.slips env d + 1)))) := by
  by_cases hwc : v.wc = 0
  · rw [View.judged, View.slips, if_pos hwc, if_pos hwc]
    exact check_skips hwc hcs hlisten hcount hb hn
  · rw [View.judged, View.slips, if_neg hwc, if_neg hwc]
    exact overlaps hd hwc hreadop hcs hlisten hcount hb hn

end Compare

/-! ## One half sector -/

/-- The bytes that are lost in half sector `j` before its word number `k`, in a check of `r`
words after `c` DMA cycles. -/
def lost (env : Env) (d c r j : Nat) : Nat → Nat
  | 0 => 0
  | k + 1 =>
      lost env d c r j k +
        if 64 * j + k < r then slip d (env.ackDelay (c + (64 * j + k))) else 0

/-- The word that the controller compares as the word number `m`. -/
def seen (env : Env) (s : Xfer) (d c r m : Nat) : BitVec 36 :=
  seenWord (Sd.byte1 s.sd.tempDATA)
    (block s.card.data (s.sd.sectADDR + BitVec.ofNat 32 (m / 64))
      (env.timing.crc (s.card.commands + m / 64)))
    (8 * (m % 64) + lost env d c r (m / 64) (m % 64))

/-- What the check that began with `s` has done after `m` words, when it compares `r` words
from the bus address `b` on, after `c` DMA cycles; `e` says whether the error was set
before. -/
structure CheckDone (env : Env) (s : Xfer) (d c r : Nat) (b : RhBa) (e : Bool) (m : Nat)
    (v : View) : Prop where
  readop : v.sdREADOP = false
  writes : v.writes = []
  data : v.card.data = s.card.data
  listen : v.card.listen = .command []
  old : Sd.byte1 v.tempDATA = Sd.byte1 s.sd.tempDATA
  ba : v.ba = b.plus env.rhBAI m
  wc : v.wc = RhWc.left (r - m)
  cycles : v.cycles = c + min m r
  wce : v.wce = true ↔ e = true ∨
    ∃ k, k < m ∧ k < r ∧ seen env s d c r k ≠ env.mem (b.plus env.rhBAI k).word

variable {s₀ : Xfer} {c r j k m : Nat} {b : RhBa} {e : Bool}

theorem CheckDone.wc_eq_zero (h : CheckDone env s₀ d c r b e m v) (hr : r < 2 ^ 15) :
    v.wc = 0 ↔ r ≤ m := by
  rw [h.wc, RhWc.left_eq_zero (by omega)]
  omega

/-- One more word is judged. -/
theorem CheckDone.judged (h : CheckDone env s₀ d c r b e m v) (hr : r < 2 ^ 15)
    (hword : v.tempDATA = seen env s₀ d c r m) {n : BitVec 16} {x : BitVec 36}
    (hx : Sd.byte1 x = Sd.byte1 s₀.sd.tempDATA) :
    CheckDone env s₀ d c r b e (m + 1) ((v.judged env n).put x) := by
  have hba : v.ba.up env.rhBAI = b.plus env.rhBAI (m + 1) := by
    rw [h.ba, RhBa.plus_up]
  have hcount : (if v.wc != 0 then v.wc + 2 else v.wc) = RhWc.left (r - (m + 1)) := by
    rw [h.wc, RhWc.left_count (by omega), Nat.sub_sub]
  by_cases hwc : v.wc = 0
  · have hle := (h.wc_eq_zero hr).mp hwc
    rw [View.judged, if_pos hwc]
    refine ⟨h.readop, h.writes, h.data, h.listen, hx, hba, hcount, ?_, ?_⟩
    · refine h.cycles.trans ?_
      omega
    · refine h.wce.trans (or_congr_right (exists_congr fun k => ?_))
      constructor
      · exact fun ⟨hk, hkr, hne⟩ => ⟨by omega, hkr, hne⟩
      · exact fun ⟨hk, hkr, hne⟩ => ⟨by omega, hkr, hne⟩
  · have hlt : m < r := by
      by_contra hle
      exact hwc ((h.wc_eq_zero hr).mpr (by omega))
    rw [View.judged, if_neg hwc]
    refine ⟨h.readop, h.writes, h.data, h.listen, hx, hba, hcount, ?_, ?_⟩
    · change v.cycles + 1 = _
      rw [h.cycles]
      omega
    · change (if v.tempDATA != store env.mem v.writes v.ba.word then true else v.wce) = true ↔ _
      rw [hword, h.writes, h.ba]
      change (if seen env s₀ d c r m != env.mem (b.plus env.rhBAI m).word then true
        else v.wce) = true ↔ _
      by_cases hne : seen env s₀ d c r m = env.mem (b.plus env.rhBAI m).word
      · rw [if_neg (by simpa using hne)]
        refine h.wce.trans (or_congr_right (exists_congr fun k => ?_))
        refine ⟨fun ⟨hk, hkr, hd⟩ => ⟨by omega, hkr, hd⟩, fun ⟨hk, hkr, hd⟩ => ⟨?_, hkr, hd⟩⟩
        rcases Nat.lt_succ_iff_lt_or_eq.mp hk with hk | rfl
        · exact hk
        · exact absurd hne hd
      · rw [if_pos (by simpa using hne)]
        exact ⟨fun _ => Or.inr ⟨m, by omega, hlt, hne⟩, fun _ => rfl⟩

/-- The first byte of the word number `k` of half sector `j` has been received. -/
structure CheckWord (env : Env) (s : Xfer) (d c r : Nat) (b : RhBa) (e : Bool) (j k : Nat)
    (l : List (BitVec 8)) (v : View) : Prop where
  half : InHalf s.sd.sectADDR j v
  check : CheckDone env s d c r b e (64 * j + k) v
  cs : v.cs = false
  loopCNT : v.loopCNT = BitVec.ofNat 16 k
  commands : v.card.commands = s.card.commands + (j + 1)
  first : Sd.byte0 v.tempDATA = l.getD (8 * k + lost env d c r j k) ff

variable {l : List (BitVec 8)}

/-- One word is checked, and the first byte of what follows is taken. -/
theorem CheckWord.next (h : CheckWord env s₀ d c r b e j k l v) (hr : r < 2 ^ 15) (hk : k < 64)
    (hl : l = block s₀.card.data (s₀.sd.sectADDR + BitVec.ofNat 32 j)
      (env.timing.crc (s₀.card.commands + j)))
    (hd : ∀ n, env.byteDelay n = d) {n : BitVec 16} {p q : Sd.State}
    {g : BitVec 36 → BitVec 8 → BitVec 36}
    (hcount : ∀ (sd : Sd) (i : Sd.In), sd.state = .wrchk13 → sd.loopCNT = v.loopCNT →
      sd.next i = { (sd.quiet.count i).transfer ff with loopCNT := n, state := p })
    (hp : Sd.takes p = true)
    (hn : ∀ (sd : Sd) (i : Sd.In), sd.state = p → sd.next i =
      sd.quiet.receive i q fun s => { s with tempDATA := g s.tempDATA i.spiRXD })
    (hg : ∀ x y, Sd.byte1 (g x y) = Sd.byte1 x) :
    Comes env (Pending env .wrchk05 ff (v.feed (l.drop (8 * k + lost env d c r j k + 1))))
      (fun s => ∃ v' x, InHalf s₀.sd.sectADDR j v' ∧
        CheckDone env s₀ d c r b e (64 * j + k + 1) v' ∧ v'.cs = false ∧ v'.loopCNT = n ∧
        v'.card.commands = s₀.card.commands + (j + 1) ∧
        v'.tempDATA = g x (l.getD (8 * (k + 1) + lost env d c r j (k + 1)) ff) ∧
        Pending env q ff
          (v'.feed (l.drop (8 * (k + 1) + lost env d c r j (k + 1) + 1))) s) := by
  let pos := 8 * k + lost env d c r j k
  let w := v.assembled l pos
  have hword : w.tempDATA = seen env s₀ d c r (64 * j + k) := by
    have hj : (64 * j + k) / 64 = j := by omega
    have hkm : (64 * j + k) % 64 = k := by omega
    change seenWord (Sd.byte1 v.tempDATA) l pos = _
    rw [h.check.old, hl, seen, hj, hkm]
  have hw : CheckDone env s₀ d c r b e (64 * j + k) w :=
    ⟨h.check.readop, h.check.writes, h.check.data, h.check.listen,
      byte1_seenWord.trans h.check.old, h.check.ba, h.check.wc, h.check.cycles, h.check.wce⟩
  have hslip : w.slips env d =
      if 64 * j + k < r then slip d (env.ackDelay (c + (64 * j + k))) else 0 := by
    rw [View.slips]
    by_cases hlt : 64 * j + k < r
    · rw [if_pos hlt, if_neg fun hz => absurd ((hw.wc_eq_zero hr).mp hz) (by omega), hw.cycles,
        Nat.min_eq_left (by omega)]
    · rw [if_neg hlt, if_pos ((hw.wc_eq_zero hr).mpr (by omega))]
  have hpos : 8 * (k + 1) + lost env d c r j (k + 1) = pos + 8 + w.slips env d := by
    rw [hslip, lost]
    omega
  have hcs : w.cs = false := h.cs
  have hcmp : Comes env (Done env (l.getD (pos + 7) ff) .wrchk11 (w.feed (l.drop (pos + 8)))) _ :=
    check_judges hd hw.readop hcs hw.listen hcount hp hn
  have hget : (l.drop (pos + 8)).getD (w.slips env d) ff = l.getD (pos + 8 + w.slips env d) ff := by
    rw [List.getD_eq_getElem?_getD, List.getElem?_drop, ← List.getD_eq_getElem?_getD]
  rw [hget, List.drop_drop, ← Nat.add_assoc] at hcmp
  rw [hpos]
  refine ((check_word h.cs h.check.listen h.first).trans hcmp).mono_right fun s hs => ?_
  refine ⟨(w.judged env n).put (g w.tempDATA (l.getD (pos + 8 + w.slips env d) ff)), w.tempDATA,
    ⟨?_, ?_⟩, hw.judged hr hword ((hg _ _).trans hw.old), ?_, ?_, ?_, rfl, hs⟩
  · exact judged_sectCNT.trans h.half.sectCNT
  · exact judged_sectADDR.trans h.half.sectADDR
  · exact judged_cs.trans h.cs
  · exact judged_loopCNT
  · exact (congrArg Card.commands judged_card).trans h.commands

/-- The drive requests the half sector of the word number `k`. -/
def Reaches (env : Env) (a : BitVec 32) (k : Nat) : Prop :=
  ∀ j, 1 ≤ j → j ≤ k / 64 → env.request (a + BitVec.ofNat 32 j) = true

/-- The words of the header that are checked before those of the sector. -/
def heads (header : Bool) : Nat := if header then 2 else 0

variable {n : Nat} {a : BitVec 32}

end Xfer

end KS10
