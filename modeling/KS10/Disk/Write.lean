import KS10.Disk.Read

/-!
# Writing to the disk

The controller takes each word from memory by a DMA cycle and sends its eight bytes to the
card, for half sector after half sector; when no words are left it sends zeros.
`write_finishes` says which blocks of the card a write has written when it comes to its
end, and with which bytes.
-/

namespace KS10

open Clocked
open Sd (ff)

namespace Xfer

variable {env : Env} {v : View} {s : Xfer} {rx tx : BitVec 8} {done : Bool}

/-! ## The states of a write -/

theorem write_addresses : Addresses .write00 .write01 .write02 .write03 24 where
  counts1 := rfl
  counts2 := rfl
  isCommand := rfl
  running0 := by decide
  select := fun sd i h => by simp only [Sd.next, h]
  send := fun sd i h => by simp only [Sd.next, h]
  answer := ⟨_, _, fun sd i h => by simp only [Sd.next, h]; rfl⟩

theorem write_ends : EndsSector .write23 .write24 .write25 .write00 .csh where
  running := by decide
  notTr := nofun
  count := fun sd i h => by simp only [Sd.next, h]
  pass := fun sd i h => by simp only [Sd.next, h]
  decide := fun sd i h => by simp only [Sd.next, h]

/-! ## One word -/

/-- The word that the controller takes from memory: zero if no words are left. -/
def View.taken (env : Env) (v : View) : BitVec 36 :=
  if v.wc == 0 then 0 else store env.mem v.writes v.ba.word

/-- The view after a word is taken from memory. -/
def View.take (env : Env) (v : View) : View :=
  (if v.wc == 0 then v else v.acked).put (v.taken env)

/-- The word comes from memory. -/
theorem write_dma :
    Comes env (Awake env done rx .write05 v) (At env .write07 (v.take env)) := by
  by_cases hzero : (v.wc == 0) = true
  · refine Leads.one (fun s h => h.toStill.running (by decide)) fun s h => ?_
    have hE : s.sd.next (s.sdIn env) = { s.sd.quiet with tempDATA := 0, state := .write07 } := by
      simp only [Sd.next, h.state]
      exact if_pos (by rw [show (s.sdIn env).rhWC = v.wc from h.wc]; exact hzero)
    refine h.toStill.awake hE SpiOp.nop_ne_tr rfl rfl rfl rfl rfl ?_
    rw [View.take, View.taken, if_pos hzero, if_pos hzero, ← h.view]
    rfl
  · have hask : Comes env (Awake env done rx .write05 v) (Acking env .write06 v) := by
      refine Leads.one (fun s h => h.toStill.running (by decide)) fun s h => ?_
      have hE : s.sd.next (s.sdIn env) =
          { s.sd.quiet with devREQO := true, state := .write06 } := by
        simp only [Sd.next, h.state]
        exact if_neg (by rw [show (s.sdIn env).rhWC = v.wc from h.wc]; exact hzero)
      refine h.toStill.acking hE SpiOp.nop_ne_tr rfl rfl rfl rfl ?_
      rw [← h.view]
      rfl
    have hacked : Comes env (Acking env .write06 v) (Acked env .write06 v) :=
      ack_comes (by decide) fun sd i h => by simp only [Sd.next, h]; rfl
    refine (hask.trans hacked).trans (Leads.one (fun s h => h.running (by decide)) fun s h => ?_)
    have hE : s.sd.next (s.sdIn env) =
        { s.sd.quiet with tempDATA := store env.mem s.writes v.ba.word, state := .write07 } := by
      simp only [Sd.next, h.state, Sd.onAck]
      rw [show (s.sdIn env).devACKI = true from h.ack, if_pos rfl,
        show (s.sdIn env).devDATAI = store env.mem s.writes v.ba.word from
          congrArg (fun r : RhBa => store env.mem s.writes r.word) h.ba]
    refine h.awake hE SpiOp.nop_ne_tr rfl rfl rfl rfl rfl ?_
    have hwrites : s.writes = v.writes := congrArg View.writes h.view
    rw [View.take, View.taken, if_neg hzero, if_neg hzero, hwrites]
    generalize store env.mem v.writes v.ba.word = x
    rw [← h.view]
    rfl

/-- The word is counted and its first byte begins. -/
theorem write_begin (h : Awake env done rx .write07 v s) :
    Pending env .write08 (Sd.encode v.tempDATA 0) (v.counted env) (s.step env) := by
  have hE : s.sd.next (s.sdIn env) =
      { ({ s.sd.quiet with sdINCBA := true, sdINCWC := v.wc != 0 } : Sd).transfer
          (Sd.byte0 s.sd.tempDATA) with state := .write08 } := by
    simp only [Sd.next, h.state, Sd.count]
    rw [show (s.sdIn env).rhWC = v.wc from h.wc]
    rfl
  refine h.toStill.pending hE rfl ?_ rfl rfl ?_
  · change Sd.byte0 s.sd.tempDATA = _
    rw [h.toStill.tempDATA]
    rfl
  · rw [← h.view]
    rfl

/-- The eight bytes of a word are sent. -/
theorem write_word (hcs : v.cs = false) (hout : v.card.out = []) {block : BitVec 32}
    {got : List (BitVec 8)} (hgot : got.length + 8 ≤ 512) :
    Comes env (Pending env .write08 (Sd.encode v.tempDATA 0) (v.hearing block got))
      (Done env ff .write15
        (v.hearing block (got ++ (List.range 8).map (Sd.encode v.tempDATA)))) := by
  let b := Sd.encode v.tempDATA
  have h8 : Comes env (Pending env .write08 (b 0) (v.hearing block got))
      (Pending env .write09 (b 1) (v.hearing block (got ++ [b 0]))) :=
    sends Sd.byte1 rfl (fun sd i h => by simp only [Sd.next, h]; rfl) hcs hout (by omega)
  have h9 : Comes env _ (Pending env .write10 (b 2) (v.hearing block (got ++ [b 0] ++ [b 1]))) :=
    h8.trans (sends Sd.byte2 rfl (fun sd i h => by simp only [Sd.next, h]; rfl) hcs hout
      (by simp; omega))
  have h10 : Comes env _ (Pending env .write11 (b 3)
      (v.hearing block (got ++ [b 0] ++ [b 1] ++ [b 2]))) :=
    h9.trans (sends Sd.byte3 rfl (fun sd i h => by simp only [Sd.next, h]; rfl) hcs hout
      (by simp; omega))
  have h11 : Comes env _ (Pending env .write12 (b 4)
      (v.hearing block (got ++ [b 0] ++ [b 1] ++ [b 2] ++ [b 3]))) :=
    h10.trans (sends (fun x => 0#4 ++ Sd.nibble4 x) rfl
      (fun sd i h => by simp only [Sd.next, h]; rfl) hcs hout (by simp; omega))
  have h12 : Comes env _ (Pending env .write13 (b 5)
      (v.hearing block (got ++ [b 0] ++ [b 1] ++ [b 2] ++ [b 3] ++ [b 4]))) :=
    h11.trans (sends (fun _ => 0) rfl (fun sd i h => by simp only [Sd.next, h]) hcs hout
      (by simp; omega))
  have h13 : Comes env _ (Pending env .write14 (b 6)
      (v.hearing block (got ++ [b 0] ++ [b 1] ++ [b 2] ++ [b 3] ++ [b 4] ++ [b 5]))) :=
    h12.trans (sends (fun _ => 0) rfl (fun sd i h => by simp only [Sd.next, h]) hcs hout
      (by simp; omega))
  have h14 : Comes env _ (Pending env .write15 (b 7)
      (v.hearing block (got ++ [b 0] ++ [b 1] ++ [b 2] ++ [b 3] ++ [b 4] ++ [b 5] ++ [b 6]))) :=
    h13.trans (sends (fun _ => 0) rfl (fun sd i h => by simp only [Sd.next, h]) hcs hout
      (by simp; omega))
  have h15 := h14.trans (hearing_ends (Or.inl rfl) hcs hout (by simp; omega))
  have hlist : got ++ (List.range 8).map b =
      got ++ [b 0] ++ [b 1] ++ [b 2] ++ [b 3] ++ [b 4] ++ [b 5] ++ [b 6] ++ [b 7] := by
    simp [List.range_succ]
  rw [show (List.range 8).map (Sd.encode v.tempDATA) = (List.range 8).map b from rfl, hlist]
  exact h15

/-- After a word comes the next one. -/
theorem write_again (h : Done env rx .write15 v s) (hmore : v.loopCNT ≠ 63) :
    At env .write05 { v with loopCNT := v.loopCNT + 1 } (s.step env) := by
  have hE : s.sd.next (s.sdIn env) =
      { s.sd.quiet with loopCNT := s.sd.loopCNT + 1, state := .write05 } := by
    simp only [Sd.next, h.state, Sd.onDone]
    rw [show (s.sdIn env).spiDONE = true from h.isDone, if_pos rfl, Sd.quiet_loopCNT,
      if_neg (by simpa [h.toStill.loopCNT] using hmore)]
  refine h.toStill.awake hE SpiOp.nop_ne_tr rfl rfl rfl rfl rfl ?_
  rw [← h.view]
  rfl

/-- After the last word of a half sector come the check bytes. -/
theorem write_last (h : Done env rx .write15 v s) (hlast : v.loopCNT = 63) :
    Pending env .write16 ff v (s.step env) := by
  have hE : s.sd.next (s.sdIn env) = { s.sd.quiet.transfer ff with state := .write16 } := by
    simp only [Sd.next, h.state, Sd.onDone]
    rw [show (s.sdIn env).spiDONE = true from h.isDone, if_pos rfl, Sd.quiet_loopCNT,
      h.toStill.loopCNT, hlast]
    rfl
  refine h.toStill.pending hE rfl rfl rfl rfl ?_
  rw [← h.view]
  rfl

/-! ## The beginning of a block -/

/-- The card has accepted a command to write the sector. -/
def View.receiving (v : View) : View :=
  v.addressed 24
    { v.card with out := [], listen := .token v.sectADDR, commands := v.card.commands + 1 }

/-- The card is asked to take a block. -/
theorem write_addressed (hready : v.card.Ready) :
    Comes env (At env .write00 v) (At env .write03 v.receiving) := by
  have haddr : Card.address (sectorCommand v.sectADDR 24) = v.sectADDR :=
    Sd.address_sectorCommand _ _
  have hcard : v.addressed 24 (v.card.accept env.timing (sectorCommand v.sectADDR 24)) =
      v.receiving.feed (List.replicate (env.timing.ncr v.card.commands) ff ++ 0x00 :: []) := by
    have hop : (sectorCommand v.sectADDR 24).getD 0 0 = 0x58 := rfl
    simp only [Card.accept, if_neg (show ¬ (sectorCommand v.sectADDR 24).getD 0 0 = 0x51 by
      rw [hop]; decide), if_pos hop, haddr, Card.response]
    rfl
  have hsent : Comes env (Still env false 0 .write00 v) _ := write_addresses.sent hready
  rw [hcard] at hsent
  exact Leads.mono_left (fun s hs => hs.toStill)
    (hsent.trans (write_addresses.taken (v := v.receiving) rfl rfl))

/-- The token goes to the card, and the words can begin. -/
theorem write_token (h0 : v.loopCNT = 0) (hcs : v.cs = false) (hout : v.card.out = [])
    {block : BitVec 32} (hlisten : v.card.listen = .token block) :
    Comes env (At env .write03 v) (At env .write05 (v.hearing block [])) := by
  have hpass : ({ v with loopCNT := 1 } : View).exchanged env ff = { v with loopCNT := 1 } := by
    simp [View.exchanged, hcs, Card.exchange, Card.hear, hout, hlisten, ff]
  have htoken : ({ v with loopCNT := 1 } : View).exchanged env 0xfe =
      { v.hearing block [] with loopCNT := 1 } := by
    simp [View.exchanged, View.hearing, hcs, Card.exchange, Card.hear, hout, hlisten]
  have hn3 : ∀ (sd : Sd) (i : Sd.In), sd.state = .write03 →
      sd.next i = sd.quiet.oneByte i ff (sd.quiet.goto .write04) :=
    fun sd i h => by simp only [Sd.next, h]
  have hn4 : ∀ (sd : Sd) (i : Sd.In), sd.state = .write04 →
      sd.next i = sd.quiet.oneByte i 0xfe (sd.quiet.goto .write05) :=
    fun sd i h => by simp only [Sd.next, h]
  have h3 : Comes env (At env .write03 v) (At env .write04 v) := by
    have hbyte : Comes env (Still env false 0 .write03 v) _ :=
      oneByte_passes rfl (by decide) hn3 h0
    rw [hpass] at hbyte
    refine (Leads.mono_left (fun s hs => hs.toStill) hbyte).trans
      (Leads.one (fun s hs => hs.toStill.running (by decide)) fun s hs => ?_)
    have hE := oneByte_next hn3 hs.toStill (by decide : (1 : BitVec 16) ≠ 0)
    refine hs.toStill.awake hE SpiOp.nop_ne_tr rfl rfl rfl rfl rfl ((after_goto _ hs.view).trans ?_)
    rw [← h0]
  have h4 : Comes env (At env .write04 v) (At env .write05 (v.hearing block [])) := by
    have hbyte : Comes env (Still env false 0 .write04 v) _ :=
      oneByte_passes rfl (by decide) hn4 h0
    rw [htoken] at hbyte
    refine (Leads.mono_left (fun s hs => hs.toStill) hbyte).trans
      (Leads.one (fun s hs => hs.toStill.running (by decide)) fun s hs => ?_)
    have hE := oneByte_next hn4 hs.toStill (by decide : (1 : BitVec 16) ≠ 0)
    refine hs.toStill.awake hE SpiOp.nop_ne_tr rfl rfl rfl rfl rfl ((after_goto _ hs.view).trans ?_)
    rw [← h0]
    rfl
  exact h3.trans h4

/-! ## The end of a block -/

/-- The card has stored a block. -/
def View.blockStored (v : View) (block : BitVec 32) (bytes : List (BitVec 8)) : View :=
  { v with
    card := { v.card with
      data := Function.update v.card.data block fun k => bytes.getD k 0
      written := v.card.written ++ [block]
      listen := .command [] } }

/-- The check bytes are sent and the card stores the block. -/
theorem write_check (hcs : v.cs = false) (hout : v.card.out = []) {block : BitVec 32}
    {got : List (BitVec 8)} (hgot : got.length = 512) :
    Comes env (Pending env .write16 ff (v.hearing block got))
      (Pending env .write18 ff ((v.blockStored block (got ++ [ff, ff])).feed
        (0xe5 :: List.replicate (env.timing.busy v.card.commands) 0x00))) := by
  have h16 : Comes env (Pending env .write16 ff (v.hearing block got))
      (Pending env .write17 ff (v.hearing block (got ++ [ff]))) := by
    refine (hearing_ends (Or.inl rfl) hcs hout (by omega)).trans
      (Leads.one (fun s hs => hs.toStill.running (by decide)) fun s hs => ?_)
    have hE : s.sd.next (s.sdIn env) = { s.sd.quiet.transfer ff with state := .write17 } := by
      simp only [Sd.next, hs.state, Sd.receive, Sd.onDone]
      exact if_pos hs.isDone
    refine hs.toStill.pending hE rfl rfl rfl rfl ?_
    rw [← hs.view]
    rfl
  have hstore : (v.hearing block (got ++ [ff])).exchanged env ff =
      (v.blockStored block (got ++ [ff, ff])).feed
        (0xe5 :: List.replicate (env.timing.busy v.card.commands) 0x00) := by
    have hfull : (got ++ [ff]).length = 513 := by simp [hgot]
    have hcs' : ¬ (v.hearing block (got ++ [ff])).cs = true := by
      change ¬ v.cs = true
      rw [hcs]
      exact Bool.false_ne_true
    have hcard : (v.hearing block (got ++ [ff])).card.exchange env.timing ff =
        { v.card with
          data := Function.update v.card.data block fun k => (got ++ [ff, ff]).getD k 0
          written := v.card.written ++ [block]
          out := 0xe5 :: List.replicate (env.timing.busy v.card.commands) 0x00
          listen := .command [] } := by
      simp only [Card.exchange, Card.hear, View.hearing, hout, if_pos hfull, Card.store,
        List.append_assoc, List.cons_append, List.nil_append]
    rw [View.exchanged, if_neg hcs', hcard]
    rfl
  have h17 : Comes env (Pending env .write17 ff (v.hearing block (got ++ [ff]))) _ :=
    byte_ends (Or.inl rfl)
  rw [hstore] at h17
  refine (h16.trans h17).trans
    (Leads.one (fun s hs => hs.toStill.running (by decide)) fun s hs => ?_)
  have hE : s.sd.next (s.sdIn env) = { s.sd.quiet.transfer ff with state := .write18 } := by
    simp only [Sd.next, hs.state, Sd.receive, Sd.onDone]
    exact if_pos hs.isDone
  refine hs.toStill.pending hE rfl rfl rfl rfl ?_
  rw [← hs.view]
  rfl

/-- The command that asks for the status. -/
def statusCommand : List (BitVec 8) := [0x4d, 0x00, 0x00, 0x00, 0x00, ff]

theorem accept_status {timing : Card.Timing} {c : Card} (hlisten : c.listen = .command []) :
    c.accept timing statusCommand =
      { c with
        out := List.replicate (timing.ncr c.commands) ff ++ [0x00, 0x00]
        commands := c.commands + 1 } := by
  rcases c with ⟨data, written, out, listen, commands⟩
  obtain rfl : listen = .command [] := hlisten
  simp [Card.accept, Card.response, statusCommand]

/-- The card accepts the block and is busy for a while. -/
theorem write_accepted (hcs : v.cs = false) (hlisten : v.card.listen = .command [])
    (m : Fin 65536) :
    Comes env (Pending env .write18 ff (v.feed (0xe5 :: List.replicate m 0x00)))
      (At env .write20 { v.feed [] with loopCNT := 0, sdCMD := statusCommand }) := by
  have h18 : Comes env (Pending env .write18 ff (v.feed (0xe5 :: List.replicate m 0x00)))
      (Pending env .write19 ff { v.feed (List.replicate m 0x00 ++ []) with loopCNT := 0 }) := by
    refine (feed_ends (Or.inl rfl) hcs hlisten _).trans
      (Leads.one (fun s hs => hs.toStill.running (by decide)) fun s hs => ?_)
    have hE : s.sd.next (s.sdIn env) = (s.sd.quiet.transfer ff).goto .write19 := by
      simp only [Sd.next, hs.state, Sd.onDone]
      rw [show (s.sdIn env).spiDONE = true from hs.isDone, if_pos rfl,
        show (s.sdIn env).spiRXD = 0xe5 from hs.isRx rfl]
      rfl
    refine hs.toStill.pending hE rfl rfl rfl rfl ?_
    rw [List.append_nil]
    exact after_goto .write19 hs.view
  have hn : ∀ (sd : Sd) (i : Sd.In), sd.state = .write19 → sd.next i = sd.quiet.onDone i
      (if i.spiRXD == 0 then
        if sd.quiet.loopCNT == 65535 then sd.quiet.fail 21 .rwfail
        else { sd.quiet.transfer ff with loopCNT := sd.quiet.loopCNT + 1 }
      else { sd.quiet.goto .write20 with sdCMD := statusCommand }) :=
    fun sd i h => by simp only [Sd.next, h]; rfl
  have hm : m.val ≤ (65535 : BitVec 16).toNat := Nat.le_of_lt_succ m.isLt
  refine (h18.trans (busy_ends hn rfl hcs hlisten hm)).trans
    (Leads.one (fun s hs => hs.toStill.running (by decide)) fun s hs => ?_)
  have hE := busy_next hn hs.toStill (by decide)
  have hview : ∀ w : View, s.view env = w →
      w.after env { s.sd.quiet.goto .write20 with sdCMD := statusCommand } =
        { w with loopCNT := 0, sdCMD := statusCommand } := by
    rintro _ rfl
    rfl
  exact hs.toStill.awake hE SpiOp.nop_ne_tr rfl rfl rfl rfl rfl (hview _ hs.view)

/-- The controller asks for the status. -/
theorem write_asks (hcmd : v.sdCMD = statusCommand) (h0 : v.loopCNT = 0) (hcs : v.cs = false)
    (hready : v.card.Ready) :
    Comes env (At env .write20 v) (Pending env .write21 ff
      (({ v with card := { v.card with commands := v.card.commands + 1 } } : View).feed
        (List.replicate (env.timing.ncr v.card.commands) ff ++ [0x00, 0x00]))) := by
  have hn : ∀ (sd : Sd) (i : Sd.In), sd.state = .write20 →
      sd.next i = sd.quiet.sendCommand i ((sd.quiet.transfer ff).goto .write21) :=
    fun sd i h => by simp only [Sd.next, h]
  have hcard : v.card.exchanges env.timing v.sdCMD = { v.card with
      out := List.replicate (env.timing.ncr v.card.commands) ff ++ [0x00, 0x00]
      commands := v.card.commands + 1 } := by
    rw [hcmd]
    exact (Card.exchanges_command hready rfl).trans (accept_status hready.listen)
  have hsent : Comes env (At env .write20 v) _ :=
    command_sent hn rfl (by decide) hcs (by rw [hcmd]; rfl) h0
  rw [hcard] at hsent
  refine hsent.trans (Leads.one ?_ ?_)
  · rintro s ⟨_, hs⟩
    exact hs.toStill.running (by decide)
  rintro s ⟨_, hs⟩
  have hE := sendCommand_next hn hs.toStill rfl
  refine hs.toStill.pending hE rfl rfl rfl rfl ((after_goto .write21 hs.view).trans ?_)
  rw [← h0]
  rfl

/-- The card reports its status. -/
theorem write_reported (h0 : v.loopCNT = 0) (hcs : v.cs = false)
    (hlisten : v.card.listen = .command []) (m : Fin 8) :
    Comes env (Pending env .write21 ff (v.feed (List.replicate m ff ++ [0x00, 0x00])))
      (Done env ff .write23 (({ v with loopCNT := 1 } : View).feed [])) := by
  have hn : ∀ (sd : Sd) (i : Sd.In), sd.state = .write21 → sd.next i = sd.quiet.onDone i
      (if i.spiRXD == ff then
        if sd.quiet.loopCNT == Sd.nCR then sd.quiet.fail 22 .rwfail
        else { sd.quiet.transfer ff with loopCNT := sd.quiet.loopCNT + 1 }
      else if i.spiRXD == 0x00 || i.spiRXD == 0x01 then (sd.quiet.transfer ff).goto .write22
      else { sd.quiet with spiOP := .csh, loopCNT := 0, sdVAL := i.spiRXD, sdERR := 23 }) :=
    fun sd i h => by simp only [Sd.next, h]
  have h21 : Comes env (Pending env .write21 ff (v.feed (List.replicate m ff ++ [0x00, 0x00])))
      (Pending env .write22 ff (v.feed [0x00])) := by
    have hm : m.val ≤ Sd.nCR.toNat := Nat.le_of_lt m.isLt
    have hbusy : Comes env (Pending env .write21 ff
        { v.feed (List.replicate m ff ++ [0x00, 0x00]) with loopCNT := 0 }) _ :=
      busy_ends hn rfl hcs hlisten hm
    rw [show ({ v.feed (List.replicate m ff ++ [0x00, 0x00]) with loopCNT := 0 } : View) =
      v.feed (List.replicate m ff ++ [0x00, 0x00]) by rw [← h0]; rfl] at hbusy
    refine hbusy.trans (Leads.one (fun s hs => hs.toStill.running (by decide)) fun s hs => ?_)
    have hE := busy_next hn hs.toStill (by decide)
    rw [show (s.sdIn env).spiRXD = 0x00 from hs.isRx rfl, if_pos (by decide)] at hE
    refine hs.toStill.pending hE rfl rfl rfl rfl ((after_goto .write22 hs.view).trans ?_)
    rw [← h0]
    rfl
  have h22 : Comes env (Pending env .write22 ff (v.feed [0x00]))
      (Pending env .write23 ff (({ v with loopCNT := 1 } : View).feed [])) := by
    refine (feed_ends (Or.inl rfl) hcs hlisten _).trans
      (Leads.one (fun s hs => hs.toStill.running (by decide)) fun s hs => ?_)
    have hE : s.sd.next (s.sdIn env) =
        { s.sd.quiet.transfer ff with loopCNT := 1, state := .write23 } := by
      simp only [Sd.next, hs.state, Sd.onDone]
      rw [show (s.sdIn env).spiDONE = true from hs.isDone, if_pos rfl,
        show (s.sdIn env).spiRXD = 0x00 from hs.isRx rfl]
      rfl
    have hview : ∀ w : View, s.view env = w →
        w.after env { s.sd.quiet.transfer ff with loopCNT := 1, state := .write23 } =
          { w with loopCNT := 1 } := by
      rintro _ rfl
      rfl
    exact hs.toStill.pending hE rfl rfl rfl rfl (hview _ hs.view)
  exact (h21.trans h22).trans
    (feed_ends (v := { v with loopCNT := 1 }) (Or.inl rfl) hcs hlisten [])

/-! ## One half sector -/

/-- The word number `k` that a write of `r` words from `s` on takes from memory: zero after
the words requested. -/
def memWord (env : Env) (s : Xfer) (r k : Nat) : BitVec 36 :=
  if k < r then env.mem (s.ba.plus env.rhBAI k).word else 0

/-- The bytes that go to the card for half sector `j`. -/
def halfByte (env : Env) (s : Xfer) (r j i : Nat) : BitVec 8 :=
  Sd.encode (memWord env s r (64 * j + i / 8)) (i % 8)

/-- The data on the card after `j` half sectors. -/
def dataAfter (env : Env) (s : Xfer) (a : BitVec 32) (r : Nat) :
    Nat → BitVec 32 → Nat → BitVec 8
  | 0 => s.card.data
  | j + 1 => Function.update (dataAfter env s a r j) (a + BitVec.ofNat 32 j) fun i =>
      ((List.range 512).map (halfByte env s r j) ++ [ff, ff]).getD i 0

/-- What the write that began with `s` has done after `m` words. -/
structure WriteDone (env : Env) (s : Xfer) (r m : Nat) (v : View) : Prop where
  readop : v.sdREADOP = false
  writes : v.writes = []
  ba : v.ba = s.ba.plus env.rhBAI m
  wc : v.wc = RhWc.left (r - m)

/-- The card after `j` half sectors. -/
structure Wrote (env : Env) (s : Xfer) (a : BitVec 32) (r j : Nat) (c : Card) : Prop where
  data : c.data = dataAfter env s a r j
  written : c.written = s.card.written ++ (List.range j).map fun k => a + BitVec.ofNat 32 k
  out : c.out = []

variable {a : BitVec 32} {r m j k : Nat} {s₀ : Xfer}

theorem WriteDone.taken (h : WriteDone env s₀ r m v) (hr : r < 2 ^ 15) :
    v.taken env = memWord env s₀ r m := by
  have hzero : (v.wc == 0) = decide (¬ m < r) := by
    rw [h.wc, beq_eq_decide]
    refine decide_eq_decide.mpr ((RhWc.left_eq_zero (by omega)).trans ?_)
    omega
  rw [View.taken, memWord, hzero, h.writes, h.ba]
  by_cases hlt : m < r
  · simp [hlt, store]
  · simp [hlt]

/-- One more word is written. -/
theorem WriteDone.word (h : WriteDone env s₀ r m v) (hr : r < 2 ^ 15) :
    WriteDone env s₀ r (m + 1) ((v.take env).counted env) := by
  have hcount : (if v.wc != 0 then v.wc + 2 else v.wc) = RhWc.left (r - (m + 1)) := by
    rw [h.wc, RhWc.left_count (by omega), Nat.sub_sub]
  have hup : v.ba.up env.rhBAI = s₀.ba.plus env.rhBAI (m + 1) := by rw [h.ba, RhBa.plus_up]
  unfold View.take
  split
  · exact ⟨h.readop, h.writes, hup, hcount⟩
  · refine ⟨h.readop, ?_, hup, hcount⟩
    change (if v.sdREADOP then _ else v.writes) = []
    rw [h.readop]
    exact h.writes

theorem take_hearing {block : BitVec 32} {got : List (BitVec 8)} :
    (v.hearing block got).take env = (v.take env).hearing block got := by
  unfold View.take View.taken View.hearing
  dsimp only
  split <;> rfl

theorem take_keeps : (v.take env).cs = v.cs ∧ (v.take env).card = v.card ∧
    (v.take env).loopCNT = v.loopCNT ∧ (v.take env).sectCNT = v.sectCNT ∧
    (v.take env).sectADDR = v.sectADDR := by
  unfold View.take
  split <;> exact ⟨rfl, rfl, rfl, rfl, rfl⟩

/-- The word number `k` of half sector `j` is about to be written. -/
structure WriteWord (env : Env) (s₀ : Xfer) (a : BitVec 32) (r j k m : Nat) (v : View) : Prop where
  half : InHalf a j v
  write : WriteDone env s₀ r m v
  cs : v.cs = false
  loopCNT : v.loopCNT = BitVec.ofNat 16 k
  card : Wrote env s₀ a r j v.card

/-- The bytes of one more word. -/
theorem range_word : (List.range (8 * (k + 1))).map (halfByte env s₀ r j) =
    (List.range (8 * k)).map (halfByte env s₀ r j) ++
      (List.range 8).map (Sd.encode (memWord env s₀ r (64 * j + k))) := by
  rw [Nat.mul_succ, List.range_add, List.map_append, List.map_map]
  congr 1
  refine List.map_congr_left fun i hi => ?_
  have hlt := List.mem_range.mp hi
  simp only [Function.comp_apply, halfByte]
  rw [show (8 * k + i) / 8 = k by omega, show (8 * k + i) % 8 = i by omega]

/-- One word is written: `k` of half sector `j`. -/
theorem WriteWord.write_next (h : WriteWord env s₀ a r j k (64 * j + k) v) (hr : r < 2 ^ 15)
    (hk : k < 64) {block : BitVec 32} :
    Comes env (At env .write05 (v.hearing block ((List.range (8 * k)).map (halfByte env s₀ r j))))
      (fun s => ∃ v', WriteWord env s₀ a r j k (64 * j + k + 1) v' ∧
        Done env ff .write15
          (v'.hearing block ((List.range (8 * (k + 1))).map (halfByte env s₀ r j))) s) := by
  let w := (v.take env).counted env
  obtain ⟨hcs, hcard, hloop, hsect, haddr⟩ := @take_keeps env v
  have htemp : w.tempDATA = memWord env s₀ r (64 * j + k) := h.write.taken hr
  have hdma := @write_dma env
    (v.hearing block ((List.range (8 * k)).map (halfByte env s₀ r j))) 0 false
  rw [take_hearing] at hdma
  have hgot : ((List.range (8 * k)).map (halfByte env s₀ r j)).length + 8 ≤ 512 := by
    simp
    omega
  have hword : Comes env (Pending env .write08 (Sd.encode w.tempDATA 0)
      (w.hearing block ((List.range (8 * k)).map (halfByte env s₀ r j)))) _ :=
    write_word (v := w) (hcs.trans h.cs) ((congrArg Card.out hcard).trans h.card.out) hgot
  rw [htemp, ← range_word] at hword
  refine ((hdma.trans (Leads.one (fun s hs => hs.toStill.running (by decide))
    fun s hs => ?_)).trans hword).mono_right fun s hs => ⟨w, ?_, hs⟩
  · have hbegin := write_begin hs
    rw [show ((v.take env).hearing block ((List.range (8 * k)).map
      (halfByte env s₀ r j))).tempDATA = w.tempDATA from rfl, htemp] at hbegin
    exact hbegin
  · exact ⟨⟨hsect.trans h.half.sectCNT, haddr.trans h.half.sectADDR⟩, h.write.word hr,
      hcs.trans h.cs, hloop.trans h.loopCNT,
      ⟨(congrArg Card.data hcard).trans h.card.data,
        (congrArg Card.written hcard).trans h.card.written,
        (congrArg Card.out hcard).trans h.card.out⟩⟩

/-- The 64 words of a half sector are written. -/
theorem write_words (h : WriteWord env s₀ a r j 0 (64 * j) v) (hr : r < 2 ^ 15)
    {block : BitVec 32} :
    Comes env (At env .write05 (v.hearing block []))
      (fun s => ∃ v' k, WriteWord env s₀ a r j k (64 * (j + 1)) v' ∧ Pending env .write16 ff
        (v'.hearing block ((List.range 512).map (halfByte env s₀ r j))) s) := by
  let P (k : Nat) (s : Xfer) : Prop := ∃ v', WriteWord env s₀ a r j k (64 * j + k) v' ∧
    At env .write05 (v'.hearing block ((List.range (8 * k)).map (halfByte env s₀ r j))) s
  let Q (s : Xfer) : Prop := ∃ v' k, WriteWord env s₀ a r j k (64 * (j + 1)) v' ∧
    Pending env .write16 ff (v'.hearing block ((List.range 512).map (halfByte env s₀ r j))) s
  have hmore : ∀ k, k < 63 → Comes env (P k) (P (k + 1)) := by
    intro k hk s ⟨v', hv', hs⟩
    refine ((hv'.write_next hr (by omega)).trans (Leads.one
      (fun s ⟨_, _, hs⟩ => hs.toStill.running (by decide)) fun s ⟨w, hw, hs⟩ => ?_)) s hs
    have hne : (w.hearing block
        ((List.range (8 * (k + 1))).map (halfByte env s₀ r j))).loopCNT ≠ 63 := by
      rw [show (w.hearing block _).loopCNT = BitVec.ofNat 16 k from hw.loopCNT]
      exact ofNat_ne_last hk
    have hcnt : w.loopCNT + 1 = BitVec.ofNat 16 (k + 1) := by
      rw [hw.loopCNT]
      exact (BitVec.ofNat_add _ _).symm
    exact ⟨{ w with loopCNT := w.loopCNT + 1 }, ⟨⟨hw.half.sectCNT, hw.half.sectADDR⟩,
      ⟨hw.write.readop, hw.write.writes, hw.write.ba, hw.write.wc⟩, hw.cs, hcnt, hw.card⟩,
      write_again hs hne⟩
  have hlast : Comes env (P 63) Q := by
    intro s ⟨v', hv', hs⟩
    refine ((hv'.write_next hr (by omega)).trans (Leads.one (Q := Q)
      (fun s ⟨_, _, hs⟩ => hs.toStill.running (by decide)) fun s ⟨w, hw, hs⟩ => ?_)) s hs
    exact ⟨w, 63, hw, write_last hs hw.loopCNT⟩
  intro s hs
  exact ((Leads.loop 63 hmore).trans hlast) s ⟨v, h, hs⟩

/-! ## The whole write -/

/-- The write is at the beginning of half sector `j`. -/
def WriteHalf (env : Env) (s₀ : Xfer) (a : BitVec 32) (r j : Nat) (s : Xfer) : Prop :=
  ∃ v, InHalf a j v ∧ WriteDone env s₀ r (64 * j) v ∧ Wrote env s₀ a r j v.card ∧
    v.card.listen = .command [] ∧ At env .write00 v s

/-- The write has ended after half sector `j`. -/
def WriteEnd (env : Env) (s₀ : Xfer) (a : BitVec 32) (r j : Nat) (s : Xfer) : Prop :=
  ∃ v, WriteDone env s₀ r (64 * (j + 1)) v ∧ Wrote env s₀ a r (j + 1) v.card ∧
    At env .done v s

/-- Half sector `j` is stored on the card, and the card has reported its status. -/
def WriteHalfDone (env : Env) (s₀ : Xfer) (a : BitVec 32) (r j : Nat) (s : Xfer) : Prop :=
  ∃ v rx, InHalf a j v ∧ WriteDone env s₀ r (64 * (j + 1)) v ∧ Wrote env s₀ a r (j + 1) v.card ∧
    v.card.listen = .command [] ∧ Done env rx .write23 v s

/-- The block of one more half sector is stored. -/
theorem Wrote.block {c : Card} (h : Wrote env s₀ a r j c) :
    Wrote env s₀ a r (j + 1) { c with
      data := Function.update c.data (a + BitVec.ofNat 32 j) fun i =>
        ((List.range 512).map (halfByte env s₀ r j) ++ [ff, ff]).getD i 0
      written := c.written ++ [a + BitVec.ofNat 32 j]
      out := [] } where
  data := by
    rw [dataAfter, ← h.data]
  written := by
    change c.written ++ [a + BitVec.ofNat 32 j] = _
    rw [h.written, List.range_succ, List.map_append, List.append_assoc]
    rfl
  out := rfl

theorem write_half (hr : r < 2 ^ 15) :
    Comes env (WriteHalf env s₀ a r j) (WriteHalfDone env s₀ a r j) := by
  intro s ⟨v, hhalf, hwrite, hcard, hlisten, hs⟩
  have hblock : v.sectADDR = a + BitVec.ofNat 32 j := hhalf.sectADDR
  have hbegin : Comes env (At env .write00 v)
      (At env .write05 (v.receiving.hearing v.sectADDR [])) :=
    (write_addressed ⟨hcard.out, hlisten⟩).trans (write_token rfl rfl rfl rfl)
  have hword : WriteWord env s₀ a r j 0 (64 * j) v.receiving :=
    ⟨⟨hhalf.sectCNT, hhalf.sectADDR⟩, ⟨hwrite.readop, hwrite.writes, hwrite.ba, hwrite.wc⟩, rfl,
      rfl, ⟨hcard.data, hcard.written, rfl⟩⟩
  refine ((hbegin.trans (write_words hword hr)).trans ?_) s hs
  intro s ⟨w, k, hw, hs⟩
  let got := (List.range 512).map (halfByte env s₀ r j)
  let stored := w.blockStored v.sectADDR (got ++ [ff, ff])
  let asked : View := { stored.feed [] with loopCNT := 0, sdCMD := statusCommand }
  let reported : View :=
    { asked with card := { asked.card with commands := asked.card.commands + 1 } }
  have hstored : Comes env (Pending env .write16 ff (w.hearing v.sectADDR got)) _ :=
    write_check hw.cs hw.card.out (by simp [got])
  have hasked := hstored.trans (write_accepted (v := stored) hw.cs rfl _)
  have hreported := (hasked.trans (write_asks (v := asked) rfl rfl hw.cs ⟨rfl, rfl⟩)).trans
    (write_reported (v := reported) rfl hw.cs rfl _)
  refine (hreported.mono_right ?_) s hs
  intro s hs
  refine ⟨({ reported with loopCNT := 1 } : View).feed [], ff,
    ⟨hw.half.sectCNT, hw.half.sectADDR⟩,
    ⟨hw.write.readop, hw.write.writes, hw.write.ba, hw.write.wc⟩, ?_, rfl, hs⟩
  have hlast := hw.card.block
  rw [← hblock] at hlast
  exact ⟨hlast.data, hlast.written, rfl⟩

theorem write_again_half (hr : r < 2 ^ 15) (hgo : ¬ stops env a r j) :
    Comes env (WriteHalf env s₀ a r j) (WriteHalf env s₀ a r (j + 1)) := by
  refine (write_half hr).trans ?_
  intro s ⟨v, rx, hhalf, hwrite, hcard, hlisten, hs⟩
  refine ((write_ends.next rfl ((goesOn_iff hhalf hr hwrite.wc).mpr hgo)).mono_right ?_) s hs
  intro s hs
  exact ⟨v.nextSector, hhalf.nextSector,
    ⟨hwrite.readop, hwrite.writes, hwrite.ba, hwrite.wc⟩, hcard, hlisten, hs⟩

theorem write_stop (hr : r < 2 ^ 15) (hstop : stops env a r j) :
    Comes env (WriteHalf env s₀ a r j) (WriteEnd env s₀ a r j) := by
  refine (write_half hr).trans ?_
  intro s ⟨v, rx, hhalf, hwrite, hcard, hlisten, hs⟩
  have hno : ¬ v.goesOn env = true := fun h => (goesOn_iff hhalf hr hwrite.wc).mp h hstop
  refine ((write_ends.last rfl hno).mono_right ?_) s hs
  intro s hs
  exact ⟨v.finished, ⟨hwrite.readop, hwrite.writes, hwrite.ba, hwrite.wc⟩, hcard, hs⟩

/-- A write comes to its end: what it has done then depends only on the words requested and
on the half sectors that the drive requests. -/
theorem write_comes {n last : Nat} (h : Starts .write00 false a n s)
    (hstop : stops env a (n % 2 ^ 15) last)
    (hfirst : ∀ j, j < last → ¬ stops env a (n % 2 ^ 15) j) :
    Comes env (· = s) (WriteEnd env s a (n % 2 ^ 15) last) := by
  have hr : n % 2 ^ 15 < 2 ^ 15 := Nat.mod_lt _ (by decide)
  have hbegin : WriteHalf env s a (n % 2 ^ 15) 0 s :=
    ⟨s.view env, ⟨h.sectCNT, h.view_sectADDR⟩, ⟨h.readop, h.writes, h.view_ba, h.view_wc⟩,
      ⟨rfl, (List.append_nil _).symm, h.card.out⟩, h.card.listen, h.at⟩
  have hnext (j : Nat) (hj : ¬ stops env a (n % 2 ^ 15) j) :
      Comes env (WriteHalf env s a (n % 2 ^ 15) j) (WriteHalf env s a (n % 2 ^ 15) (j + 1)) :=
    write_again_half hr hj
  have hrun := Leads.loop_until hstop hfirst hnext fun j => write_stop hr
  exact Leads.mono_left (by rintro _ rfl; exact hbegin) hrun

/-- What the card, the registers and the DMA cycles of a write are at its end. -/
theorem write_finishes {n last : Nat} (h : Starts .write00 false a n s)
    (hstop : stops env a (n % 2 ^ 15) last)
    (hfirst : ∀ j, j < last → ¬ stops env a (n % 2 ^ 15) j) :
    ∃ t, Finishes env s t ∧
      Wrote env s a (n % 2 ^ 15) (last + 1) ((step env)^[t] s).card ∧
      ((step env)^[t] s).writes = [] ∧
      ((step env)^[t] s).wc.rhWC = RhWc.left (n % 2 ^ 15 - 64 * (last + 1)) ∧
      ((step env)^[t] s).ba = s.ba.plus env.rhBAI (64 * (last + 1)) := by
  obtain ⟨t, ht, v, hwrite, hcard, hend⟩ :=
    comes_finishes (write_comes h hstop hfirst) rfl fun s ⟨_, _, _, hend⟩ => hend.state
  have hview := hend.view
  refine ⟨t, ht, ?_, ?_, hend.wc.trans hwrite.wc, hend.ba.trans hwrite.ba⟩
  · rw [show ((step env)^[t] s).card = v.card from congrArg View.card hview]
    exact hcard
  · exact (congrArg View.writes hview).trans hwrite.writes

end Xfer

end KS10
