import KS10.Dup.Register

/-!
# The stages of a transmission

A transmission goes through its stages: nothing has been written, the transmitter starts, the
synchronization characters or flags, the message, the two check characters, the closing flags,
and the end (`Stage`).  Every clock leads from a stage to one of the next, with the lists of the
words and of the characters in step; here those before the message.
-/

namespace KS10

namespace DupSend

variable {decmd crci wr : Bool} {s : DupSend} {i : In}
  {rest : List (Option (BitVec 8))}

/-! ## The stages of a transmission -/

/-- The register has a word with TXSOM. -/
structure Som (s : DupSend) : Prop where
  som : s.buf.txSom = true
  mem : s.buf ∈ s.wrote
  none : body s.wrote = []

/-- Where the transmission is, with the words that are left. -/
inductive Stage (decmd crci wr : Bool) (s : DupSend) (rest : List (Option (BitVec 8))) : Prop
  | fresh (state : s.tx.fsm.state = .idle) (empty : s.empty = true) (strobe : s.strobe = false)
      (som : s.buf.txSom = false) (wrote : s.wrote = []) (sent : s.sent = []) (none : rest = [])
  | start
      (state : s.tx.fsm.state ∈
        [.idle, .startDelay1, .startDelay2, .startDelay3, .preFlag1])
      (zero : s.tx.fsm.state = .preFlag1 → decmd = false)
      (empty : s.empty = true) (done : s.tx.fsm.txDone = false) (som : Som s)
      (sent : s.sent = []) (none : rest = [])
  | leads (state : s.tx.fsm.state = .preFlag2 ∨ s.tx.fsm.state = .startSync)
      (zero : s.tx.fsm.state = .preFlag2 → decmd = false)
      (buffer : Buffer wr s rest) (som : rest = [] → s.buf.txSom = true)
      (roles : ∀ x ∈ s.sent, x.role = .lead)
      (first : s.sent = [] → s.tx.fsm.state = .startSync ∧ s.buf.txSom = true ∧
        s.tx.fsm.txDone = false)
  | payload (state : s.tx.fsm.state = .payload) (buffer : Buffer wr s rest)
      (som : s.buf.txSom = false) (eom : rest = [] → s.buf.txEom = false) (some : s.sent ≠ [])
      (last : ∀ x ∈ s.sent.getLast?, x.role = .lead ∨ x.role = .data ∨
        x.role = .close ∧ decmd = false ∧ crci = false)
  | checkHi (state : s.tx.fsm.state = .sendCrcHi) (buffer : Buffer wr s rest)
      (som : s.buf.txSom = false) (eom : rest = [] ↔ s.buf.txEom = true) (inhibit : crci = false)
      (dec : decmd = true → rest = [])
      (last : ∃ r, s.sent.getLast? = some ⟨.checkHi, .char (!decmd) (DupTx.crcHi decmd r)⟩ ∧
        s.tx.fsm.crcLo = DupTx.crcLo decmd r)
  | checkLo (state : s.tx.fsm.state = .sendCrcLo) (buffer : Buffer wr s rest)
      (som : s.buf.txSom = false) (eom : rest = [] ↔ s.buf.txEom = true) (inhibit : crci = false)
      (dec : decmd = true → rest = [])
      (last : ∃ x ∈ s.sent.getLast?, x.role = .checkLo ∨ x.role = .close ∧ decmd = false)
  | held (state : s.tx.fsm.state = .markHold) (wrote : s.wrote ≠ []) (som : s.buf.txSom = false)
      (some : s.sent ≠ []) (length : rest.length ≤ 1)
  | ended (state : s.tx.fsm.state ∈ [.wait, .done, .idle]) (wrote : s.wrote ≠ [])
      (som : s.buf.txSom = false) (length : rest.length ≤ 1)
      (whole : (∃ x ∈ s.sent, x.role = .abort) ∨
        rest = leftOver crci ∧ ∃ x ∈ s.sent.getLast?, Closed decmd crci x)

/-- The invariant. -/
structure Inv (decmd crci wr : Bool) (s : DupSend) (rest : List (Option (BitVec 8))) : Prop where
  log : Log decmd crci s.wrote s.sent rest
  stage : Stage decmd crci wr s rest
  abrt : s.buf.txAbrt = false
  takes : s.tx.fsm.load = true → s.tx.usrt.state = .idle

theorem Renewed.txSom {s' : DupSend} {rest' : List (Option (BitVec 8))}
    (h : Renewed decmd s s' rest rest') (hsom : s.buf.txSom = false) : s'.buf.txSom = false := by
  cases h with
  | same _ hbuf => rw [hbuf, hsom]
  | som hbefore _ =>
      rw [hsom] at hbefore
      cases hbefore
  | word _ hafter => exact hafter

theorem sent_next_of (h : (s.next decmd crci i).tx.fsm.load = false) :
    (s.next decmd crci i).sent = s.sent := by
  rw [sent_next]
  unfold DupTx.Fsm.handed
  rw [h, if_neg Bool.false_ne_true, List.append_nil]

theorem sent_next_load (h : (s.next decmd crci i).tx.fsm.load = true) :
    (s.next decmd crci i).sent = s.sent ++
      [⟨(s.next decmd crci i).tx.fsm.role, (s.next decmd crci i).tx.fsm.char⟩] := by
  rw [sent_next]
  unfold DupTx.Fsm.handed
  rw [h, if_pos rfl]

/-- After the end of a message the word in the register is the end, or one of the next
message. -/
theorem Renewed.check {s' : DupSend} {rest' : List (Option (BitVec 8))}
    (h : Renewed decmd s s' rest rest') (hbuffer : Buffer wr s rest) (hsom : s.buf.txSom = false)
    (heom : rest = [] ↔ s.buf.txEom = true) (hdec : decmd = true → rest = []) :
    (rest' = [] ↔ s'.buf.txEom = true) ∧ (decmd = true → rest' = []) := by
  cases h with
  | same _ hbuf =>
      rw [hbuf]
      exact ⟨heom, hdec⟩
  | som hbefore _ =>
      rw [hsom] at hbefore
      cases hbefore
  | word hwrites _ =>
      have hwrote : s.wrote ≠ [] := by
        intro hnil
        cases hbuffer with
        | lead hlead =>
            rw [hsom] at hlead
            cases hlead
        | taken _ _ hsome =>
            rw [hnil] at hsome
            exact hsome rfl
      have hended : s.ended = true := by
        unfold ended
        rw [heom.mp rfl, hsom]
        rfl
      obtain ⟨hdecmd, hword⟩ := hwrites.again hwrote hended
      refine ⟨⟨nofun, fun heom' => ?_⟩, fun hdecmd' => ?_⟩
      · rw [hword] at heom'
        cases heom'
      · rw [hdecmd] at hdecmd'
        cases hdecmd'

/-- At the end of a transmission there are no writes. -/
theorem Legal.closed (crci : Bool) (h : Legal decmd s i) (hopen : s.isOpen = false) :
    (s.next decmd crci i).buf = s.buf ∧ (s.next decmd crci i).wrote = s.wrote := by
  cases h.written crci with
  | same hbuf hwrote _ => exact ⟨hbuf, hwrote⟩
  | new _ hwrites =>
      have := hwrites.isOpen
      rw [hopen] at this
      cases this

theorem isOpen_over (hstate : s.tx.fsm.state ∈ [.wait, .done, .idle]) (hwrote : s.wrote ≠ []) :
    s.isOpen = false := by
  unfold isOpen
  simp only [List.mem_cons, List.not_mem_nil, or_false] at hstate
  rcases hstate with hs | hs | hs
  · rw [hs]
  · rw [hs]
  · rw [hs]
    exact List.isEmpty_eq_false_iff.mpr hwrote

/-! ## A clock at which nothing is decided -/

/-- The transmitter waits for the shift register. -/
theorem Inv.step_waits (h : Inv decmd crci i.wr s rest) (hlegal : Legal decmd s i)
    (hwaits : waits s.tx.fsm.state = true) (hempty : s.empty = false) (wr : Bool) :
    ∃ rest', Inv decmd crci wr (s.next decmd crci i) rest' := by
  have hfsm := next_waits decmd crci (i := i) hwaits hempty
  have hload : (s.next decmd crci i).tx.fsm.load = false := by
    rw [hfsm]
    rfl
  have hstate : (s.next decmd crci i).tx.fsm.state = s.tx.fsm.state := by
    rw [hfsm]
    rfl
  have hdone : (s.next decmd crci i).tx.fsm.txDone = (s.tx.fsm.txDone && !i.wr) := by
    rw [hfsm]
    rfl
  have hcrcLo : (s.next decmd crci i).tx.fsm.crcLo = s.tx.fsm.crcLo := by
    rw [hfsm]
    rfl
  have hsent := sent_next_of hload
  have habrt := hlegal.abrt_next crci h.abrt
  have htakes : (s.next decmd crci i).tx.fsm.load = true →
      (s.next decmd crci i).tx.usrt.state = .idle := by
    rw [hload]
    nofun
  cases h.stage with
  | fresh hidle =>
      rw [hidle] at hwaits
      cases hwaits
  | start hstart =>
      simp only [List.mem_cons, List.not_mem_nil, or_false] at hstart
      rcases hstart with hs | hs | hs | hs | hs
      all_goals
        rw [hs] at hwaits
        cases hwaits
  | leads hleads hzero hbuffer hsom hroles hfirst =>
      obtain ⟨rest', hbuffer', hlog', hrenewed⟩ := hbuffer.renews h.log hlegal hdone wr
      refine ⟨rest', hsent.symm ▸ hlog', .leads (hstate.symm ▸ hleads) (hstate.symm ▸ hzero)
        hbuffer' ?_ (hsent.symm ▸ hroles) ?_, habrt, htakes⟩
      · intro hnone
        cases hrenewed with
        | same _ hbuf => rw [hbuf, hsom hnone]
        | som _ hafter => exact hafter
        | word _ _ => cases hnone
      · rw [hsent, hstate]
        intro hnil
        obtain ⟨hsync, hlead, hnot⟩ := hfirst hnil
        refine ⟨hsync, ?_, by rw [hdone, hnot, Bool.false_and]⟩
        cases hrenewed with
        | same _ hbuf => rw [hbuf, hlead]
        | som _ hafter => exact hafter
        | word hwrites _ =>
            have hasked := hwrites.asked
            rw [hnot] at hasked
            cases hasked
  | payload hpayload hbuffer hsom heom hsome hlast =>
      obtain ⟨rest', hbuffer', hlog', hrenewed⟩ := hbuffer.renews h.log hlegal hdone wr
      refine ⟨rest', hsent.symm ▸ hlog', .payload (hstate.trans hpayload) hbuffer'
        (hrenewed.txSom hsom) ?_ (hsent.symm ▸ hsome) (hsent.symm ▸ hlast), habrt, htakes⟩
      intro hnone
      cases hrenewed with
      | same _ hbuf => rw [hbuf, heom hnone]
      | som hbefore _ =>
          rw [hsom] at hbefore
          cases hbefore
      | word _ _ => cases hnone
  | checkHi hcheck hbuffer hsom heom hcrci hdec hlast =>
      obtain ⟨rest', hbuffer', hlog', hrenewed⟩ := hbuffer.renews h.log hlegal hdone wr
      obtain ⟨heom', hdec'⟩ := hrenewed.check hbuffer hsom heom hdec
      exact ⟨rest', hsent.symm ▸ hlog', .checkHi (hstate.trans hcheck) hbuffer'
        (hrenewed.txSom hsom) heom' hcrci hdec' (by rw [hsent, hcrcLo]; exact hlast), habrt, htakes⟩
  | checkLo hcheck hbuffer hsom heom hcrci hdec hlast =>
      obtain ⟨rest', hbuffer', hlog', hrenewed⟩ := hbuffer.renews h.log hlegal hdone wr
      obtain ⟨heom', hdec'⟩ := hrenewed.check hbuffer hsom heom hdec
      exact ⟨rest', hsent.symm ▸ hlog', .checkLo (hstate.trans hcheck) hbuffer'
        (hrenewed.txSom hsom) heom' hcrci hdec' (by rw [hsent]; exact hlast), habrt, htakes⟩
  | held hheld hwritten hsom hsome hlength =>
      have hopen : s.isOpen = false := by
        unfold isOpen
        rw [hheld]
      obtain ⟨hbuf, hwrote⟩ := hlegal.closed crci hopen
      exact ⟨rest, by rw [hsent, hwrote]; exact h.log, .held (hstate.trans hheld)
        (hwrote.symm ▸ hwritten) (by rw [hbuf, hsom]) (hsent.symm ▸ hsome) hlength, habrt, htakes⟩
  | ended hover hwritten hsom hlength hwhole =>
      obtain ⟨hbuf, hwrote⟩ := hlegal.closed crci (isOpen_over hover hwritten)
      exact ⟨rest, by rw [hsent, hwrote]; exact h.log, .ended (hstate.symm ▸ hover)
        (hwrote.symm ▸ hwritten) (by rw [hbuf, hsom]) hlength (hsent.symm ▸ hwhole), habrt, htakes⟩

/-! ## Before the transmission -/

theorem empty_next (hempty : s.empty = true) (hload : (s.next decmd crci i).tx.fsm.load = false) :
    (s.next decmd crci i).empty = true := by
  unfold empty
  rw [usrt_next hempty, hload]
  rfl

/-- Nothing has been written. -/
theorem Inv.step_fresh (h : Inv decmd crci i.wr s rest) (hlegal : Legal decmd s i)
    (hstate : s.tx.fsm.state = .idle) (hempty : s.empty = true) (hstrobe : s.strobe = false)
    (hsom : s.buf.txSom = false) (hwrote : s.wrote = []) (hsent : s.sent = []) (hnone : rest = [])
    (wr : Bool) : ∃ rest', Inv decmd crci wr (s.next decmd crci i) rest' := by
  have hfsm : (s.next decmd crci i).tx.fsm = settled decmd crci s i := by
    rw [next_idle decmd crci h.abrt hstate, hsom, Bool.and_false, if_neg Bool.false_ne_true]
  have hload : (s.next decmd crci i).tx.fsm.load = false := by
    rw [hfsm]
    rfl
  have hstate' : (s.next decmd crci i).tx.fsm.state = .idle := by
    rw [hfsm]
    exact hstate
  have hsent' := (sent_next_of hload).trans hsent
  have habrt := hlegal.abrt_next crci h.abrt
  have htakes : (s.next decmd crci i).tx.fsm.load = true →
      (s.next decmd crci i).tx.usrt.state = .idle := fun _ => usrt_next hempty
  have hempty' := empty_next hempty hload
  subst hnone
  cases hlegal.written crci with
  | same hbuf hwrote' hwr =>
      have hnot : i.wr = false := by
        rw [← Bool.not_eq_true]
        intro hwr'
        have hup := hwr hwr'
        rw [hstrobe] at hup
        cases hup
      refine ⟨[], ?_, .fresh hstate' hempty' hnot (by rw [hbuf, hsom]) (hwrote'.trans hwrote)
        hsent' rfl, habrt, htakes⟩
      rw [hwrote', sent_next_of hload]
      exact h.log
  | new hwr hwrites _ hbuf hwrote' =>
      have hword : i.word.txSom = true := hwrites.first hwrote
      have hlog := h.log.write i.word
      rw [hword, if_pos rfl, List.nil_append, ← hwrote', ← sent_next_of hload] at hlog
      have hdone : (s.next decmd crci i).tx.fsm.txDone = false := by
        rw [hfsm]
        show (s.tx.fsm.txDone && !i.wr) = false
        rw [hwr, Bool.not_true, Bool.and_false]
      refine ⟨[], hlog, .start (hstate' ▸ List.mem_cons_self) (by rw [hstate']; nofun) hempty'
        hdone ⟨?_, ?_, ?_⟩ hsent' rfl, habrt, htakes⟩
      · rw [hbuf, hword]
      · rw [hbuf, hwrote']
        exact List.mem_append_right _ (List.mem_singleton_self _)
      · rw [hwrote', hwrote, List.nil_append]
        unfold body
        rw [List.filterMap_cons_none]
        · rfl
        · rw [hword, if_pos rfl]

/-- While TXDONE is clear no write begins. -/
theorem Legal.same (crci : Bool) (h : Legal decmd s i) (hdone : s.tx.fsm.txDone = false) :
    (s.next decmd crci i).buf = s.buf ∧ (s.next decmd crci i).wrote = s.wrote := by
  cases h.written crci with
  | same hbuf hwrote _ => exact ⟨hbuf, hwrote⟩
  | new _ hwrites =>
      have hasked := hwrites.asked
      rw [hdone] at hasked
      cases hasked

/-- The start of the message stays in the register. -/
theorem Som.next (h : Som s) (hlegal : Legal decmd s i) (hdone : s.tx.fsm.txDone = false) :
    Som (s.next decmd crci i) := by
  obtain ⟨hbuf, hwrote⟩ := hlegal.same crci hdone
  exact ⟨by rw [hbuf, h.som], by rw [hbuf, hwrote]; exact h.mem, by rw [hwrote, h.none]⟩

/-- A clock of the start without a character. -/
theorem Inv.starts (h : Inv decmd crci i.wr s []) (hlegal : Legal decmd s i)
    (hempty : s.empty = true) (hdone : s.tx.fsm.txDone = false) (hsom : Som s)
    (hsent : s.sent = []) (hload : (s.next decmd crci i).tx.fsm.load = false)
    (hdone' : (s.next decmd crci i).tx.fsm.txDone = false)
    (hstate : (s.next decmd crci i).tx.fsm.state ∈
        [.idle, .startDelay1, .startDelay2, .startDelay3, .preFlag1] ∧
      ((s.next decmd crci i).tx.fsm.state = .preFlag1 → decmd = false) ∨
        (s.next decmd crci i).tx.fsm.state = .startSync) (wr : Bool) :
    ∃ rest', Inv decmd crci wr (s.next decmd crci i) rest' := by
  obtain ⟨-, hwrote⟩ := hlegal.same crci hdone
  have habrt := hlegal.abrt_next crci h.abrt
  have htakes : (s.next decmd crci i).tx.fsm.load = true →
      (s.next decmd crci i).tx.usrt.state = .idle := fun _ => usrt_next hempty
  have hsom' : Som (s.next decmd crci i) := hsom.next hlegal hdone
  have hsent' := (sent_next_of hload).trans hsent
  have hlog : Log decmd crci (s.next decmd crci i).wrote (s.next decmd crci i).sent [] := by
    rw [hwrote, sent_next_of hload]
    exact h.log
  rcases hstate with ⟨hstart, hzero⟩ | hsync
  · exact ⟨[], hlog, .start hstart hzero (empty_next hempty hload) hdone' hsom' hsent' rfl,
      habrt, htakes⟩
  · refine ⟨[], hlog, .leads (.inr hsync) (by rw [hsync]; nofun)
      (.lead hsom'.som hsom'.mem hsom'.none) (fun _ => hsom'.som) ?_
      (fun _ => ⟨hsync, hsom'.som, hdone'⟩), habrt, htakes⟩
    rw [hsent']
    nofun

theorem settled_txDone (decmd crci : Bool) (i : In) (hdone : s.tx.fsm.txDone = false) :
    (settled decmd crci s i).txDone = false := by
  show (s.tx.fsm.txDone && !i.wr) = false
  rw [hdone]
  rfl

/-- A delay waits for its clock. -/
theorem Inv.step_delay (h : Inv decmd crci i.wr s []) (hlegal : Legal decmd s i)
    {st st' : DupTx.State} (hst : st = .startDelay1 ∨ st = .startDelay2)
    (hst' : st' = .startDelay2 ∨ st' = .startDelay3) (hs : s.tx.fsm.state = st)
    (hfsm : (s.next decmd crci i).tx.fsm =
      if i.txCen then { settled decmd crci s i with state := st' } else settled decmd crci s i)
    (hempty : s.empty = true) (hdone : s.tx.fsm.txDone = false) (hsom : Som s)
    (hsent : s.sent = []) (wr : Bool) :
    ∃ rest', Inv decmd crci wr (s.next decmd crci i) rest' := by
  have hsettled := settled_txDone decmd crci i hdone
  have hstate' : (s.next decmd crci i).tx.fsm.state = if i.txCen then st' else st := by
    rw [hfsm]
    split_ifs
    · rfl
    · exact hs
  refine h.starts hlegal hempty hdone hsom hsent (by rw [hfsm]; split_ifs <;> rfl)
    (by rw [hfsm]; split_ifs <;> exact hsettled) (.inl ⟨?_, ?_⟩) wr
  · rw [hstate']
    rcases hst with rfl | rfl <;> rcases hst' with rfl | rfl <;> split_ifs <;> decide
  · rw [hstate']
    rcases hst with rfl | rfl <;> rcases hst' with rfl | rfl <;> split_ifs <;> nofun

/-- A message begins at SEND. -/
theorem Inv.step_idle (h : Inv decmd crci i.wr s []) (hlegal : Legal decmd s i)
    (hs : s.tx.fsm.state = .idle) (hempty : s.empty = true) (hdone : s.tx.fsm.txDone = false)
    (hsom : Som s) (hsent : s.sent = []) (wr : Bool) :
    ∃ rest', Inv decmd crci wr (s.next decmd crci i) rest' := by
  have hsettled := settled_txDone decmd crci i hdone
  have hfsm := next_idle decmd crci (i := i) h.abrt hs
  rw [hsom.som, Bool.and_true] at hfsm
  split_ifs at hfsm with hgo hpre
  · rw [Bool.and_eq_true_iff, Bool.not_eq_true'] at hpre
    refine h.starts hlegal hempty hdone hsom hsent (by rw [hfsm]; rfl)
      (by rw [hfsm]; exact hsettled) (.inl ⟨?_, fun _ => hpre.1⟩) wr
    rw [hfsm]
    dsimp only
    decide
  · refine h.starts hlegal hempty hdone hsom hsent (by rw [hfsm]; rfl)
      (by rw [hfsm]; exact hsettled) (.inl ⟨?_, ?_⟩) wr
    · rw [hfsm]
      dsimp only
      decide
    · rw [hfsm]
      nofun
  · have hstate' : (s.next decmd crci i).tx.fsm.state = .idle := by
      rw [hfsm]
      exact hs
    refine h.starts hlegal hempty hdone hsom hsent (by rw [hfsm]; rfl)
      (by rw [hfsm]; exact hsettled) (.inl ⟨?_, ?_⟩) wr
    · rw [hstate']
      decide
    · rw [hstate']
      nofun

/-- The first eight zeros of the preflag. -/
theorem Inv.step_preFlag1 (h : Inv decmd crci i.wr s []) (hlegal : Legal decmd s i)
    (hs : s.tx.fsm.state = .preFlag1) (hdecmd : decmd = false) (hempty : s.empty = true)
    (hdone : s.tx.fsm.txDone = false) (hsom : Som s) (hsent : s.sent = []) (wr : Bool) :
    ∃ rest', Inv decmd crci wr (s.next decmd crci i) rest' := by
  obtain ⟨-, hwrote⟩ := hlegal.same crci hdone
  have hsom' : Som (s.next decmd crci i) := hsom.next hlegal hdone
  have hfsm := next_preFlag1 decmd crci (i := i) h.abrt hs
  split_ifs at hfsm
  · have hstate' : (s.next decmd crci i).tx.fsm.state = .preFlag2 := by rw [hfsm]
    have hitem : (s.next decmd crci i).sent = s.sent ++ [⟨.lead, .char false 0⟩] := by
      rw [sent_next_load (by rw [hfsm]), hfsm]
      rfl
    have hlog := h.log.hand ⟨.lead, .char false 0⟩ [] (by rw [hsent]; nofun)
      (fun _ => rfl) (by unfold Shown; rw [hdecmd]; exact .inr rfl) rfl
    rw [← hitem, ← hwrote] at hlog
    refine ⟨[], hlog, .leads (.inl hstate') (fun _ => hdecmd)
      (.lead hsom'.som hsom'.mem hsom'.none) (fun _ => hsom'.som) ?_ ?_,
      hlegal.abrt_next crci h.abrt, fun _ => usrt_next hempty⟩
    · rw [hitem, hsent]
      intro x hx
      rw [List.nil_append, List.mem_singleton] at hx
      rw [hx]
    · rw [hitem, hsent]
      nofun
  · have hstate' : (s.next decmd crci i).tx.fsm.state = .preFlag1 := by
      rw [hfsm]
      exact hs
    refine h.starts hlegal hempty hdone hsom hsent (by rw [hfsm]; rfl)
      (by rw [hfsm]; exact settled_txDone decmd crci i hdone) (.inl ⟨?_, fun _ => hdecmd⟩) wr
    rw [hstate']
    decide

/-- The transmission starts. -/
theorem Inv.step_start (h : Inv decmd crci i.wr s rest) (hlegal : Legal decmd s i)
    (hstate : s.tx.fsm.state ∈ [.idle, .startDelay1, .startDelay2, .startDelay3, .preFlag1])
    (hzero : s.tx.fsm.state = .preFlag1 → decmd = false)
    (hempty : s.empty = true) (hdone : s.tx.fsm.txDone = false) (hsom : Som s)
    (hsent : s.sent = []) (hnone : rest = []) (wr : Bool) :
    ∃ rest', Inv decmd crci wr (s.next decmd crci i) rest' := by
  subst hnone
  simp only [List.mem_cons, List.not_mem_nil, or_false] at hstate
  rcases hstate with hs | hs | hs | hs | hs
  · exact h.step_idle hlegal hs hempty hdone hsom hsent wr
  · exact h.step_delay hlegal (.inl rfl) (.inl rfl) hs (next_startDelay1 decmd crci h.abrt hs)
      hempty hdone hsom hsent wr
  · exact h.step_delay hlegal (.inr rfl) (.inr rfl) hs (next_startDelay2 decmd crci h.abrt hs)
      hempty hdone hsom hsent wr
  · have hsettled := settled_txDone decmd crci i hdone
    have hfsm := next_startDelay3 decmd crci (i := i) h.abrt hs
    split_ifs at hfsm
    · refine h.starts hlegal hempty hdone hsom hsent (by rw [hfsm]; rfl)
        (by rw [hfsm]; exact hsettled) (.inr ?_) wr
      rw [hfsm]
    · have hstate' : (s.next decmd crci i).tx.fsm.state = .startDelay3 := by
        rw [hfsm]
        exact hs
      refine h.starts hlegal hempty hdone hsom hsent (by rw [hfsm]; rfl)
        (by rw [hfsm]; exact hsettled) (.inl ⟨?_, ?_⟩) wr
      · rw [hstate']
        decide
      · rw [hstate']
        nofun
  · exact h.step_preFlag1 hlegal hs (hzero hs) hempty hdone hsom hsent wr

/-! ## The synchronization characters and the flags before the message -/

theorem Buffer.load_of_raced (h : Buffer wr s rest) (hempty : s.empty = true)
    (hrest : rest ≠ []) : s.tx.fsm.txDone = false ∧ s.buf.txSom = false ∧ rest = [view s.buf] := by
  cases h with
  | waiting hsom hwait => exact ⟨hwait, hsom, rfl⟩
  | lead => exact absurd rfl hrest
  | raced _ _ hload =>
      unfold empty at hempty
      rw [hload, Bool.not_true, Bool.and_false] at hempty
      cases hempty
  | taken => exact absurd rfl hrest

/-- The second eight zeros of the preflag. -/
theorem Inv.step_preFlag2 (h : Inv decmd crci i.wr s rest) (hlegal : Legal decmd s i)
    (hstate : s.tx.fsm.state = .preFlag2) (hdecmd : decmd = false) (hempty : s.empty = true)
    (hbuffer : Buffer i.wr s rest) (hsom : rest = [] → s.buf.txSom = true)
    (hroles : ∀ x ∈ s.sent, x.role = .lead) (hsome : s.sent ≠ []) (wr : Bool) :
    ∃ rest', Inv decmd crci wr (s.next decmd crci i) rest' := by
  have hfsm := next_preFlag2 decmd crci (i := i) h.abrt hstate hempty
  have hstate' : (s.next decmd crci i).tx.fsm.state = .startSync := by rw [hfsm]
  have hdone : (s.next decmd crci i).tx.fsm.txDone = (s.tx.fsm.txDone && !i.wr) := by
    rw [hfsm]
    rfl
  have hitem : (s.next decmd crci i).sent = s.sent ++ [⟨.lead, .char false 0⟩] := by
    rw [sent_next_load (by rw [hfsm]), hfsm]
    rfl
  obtain ⟨rest', hbuffer', hlog', hrenewed⟩ := hbuffer.renews h.log hlegal hdone wr
  have hlog := hlog'.hand ⟨.lead, .char false 0⟩ rest'
    (fun y hy => by unfold Follows; rw [hroles y (List.mem_of_getLast? hy)]; trivial)
    (fun _ => rfl) (by unfold Shown; rw [hdecmd]; exact .inr rfl) rfl
  rw [← hitem] at hlog
  refine ⟨rest', hlog, .leads (.inr hstate') (fun _ => hdecmd) hbuffer' ?_ ?_ ?_,
    hlegal.abrt_next crci h.abrt, fun _ => usrt_next hempty⟩
  · intro hnone
    cases hrenewed with
    | same _ hbuf => rw [hbuf, hsom hnone]
    | som _ hafter => exact hafter
    | word _ _ => cases hnone
  · rw [hitem]
    intro x hx
    rcases List.mem_append.mp hx with hx | hx
    · exact hroles x hx
    · rw [List.mem_singleton.mp hx]
  · rw [hitem]
    intro hnil
    exact absurd (List.append_eq_nil_iff.mp hnil).1 hsome

/-- A synchronization character or a flag is handed over. -/
theorem Inv.step_sync (h : Inv decmd crci i.wr s rest) (hlegal : Legal decmd s i)
    (hundisturbed : Undisturbed crci s i wr)
    (hstate : s.tx.fsm.state = .startSync) (hempty : s.empty = true) (hsend : i.send = true)
    (hsom : Som s) (hnone : rest = []) (hroles : ∀ x ∈ s.sent, x.role = .lead) :
    ∃ rest', Inv decmd crci wr (s.next decmd crci i) rest' := by
  have hfsm := next_startSync decmd crci h.abrt hstate hempty hsend
  rw [hsom.som, if_pos rfl] at hfsm
  have hstate' : (s.next decmd crci i).tx.fsm.state = .startSync := by
    rw [hfsm]
    exact hstate
  have hload : (s.next decmd crci i).tx.fsm.load = true := by rw [hfsm]
  have hitem : (s.next decmd crci i).sent = s.sent ++
      [⟨.lead, if decmd then .char false s.buf.txDat else .flag⟩] := by
    rw [sent_next_load hload, hfsm]
    cases decmd with
    | false => simp [DupTx.Fsm.role, DupTx.Fsm.char, settled, DupTx.Fsm.settle, hstate]
    | true => simp [DupTx.Fsm.role, DupTx.Fsm.char, settled, DupTx.Fsm.settle, hstate]
  have hshown : Shown decmd s.wrote ⟨.lead, if decmd then .char false s.buf.txDat else .flag⟩ := by
    unfold Shown
    cases decmd with
    | false => exact .inl rfl
    | true => exact ⟨s.buf, hsom.mem, hsom.som, rfl⟩
  have hlog := h.log.hand _ rest
    (fun y hy => by unfold Follows; rw [hroles y (List.mem_of_getLast? hy)]; trivial)
    (fun _ => rfl) hshown rfl
  rw [← hitem] at hlog
  have hroles' : ∀ x ∈ (s.next decmd crci i).sent, x.role = .lead := by
    rw [hitem]
    intro x hx
    rcases List.mem_append.mp hx with hx | hx
    · exact hroles x hx
    · rw [List.mem_singleton.mp hx]
  have hfirst : (s.next decmd crci i).sent ≠ [] := by
    rw [hitem]
    exact List.append_ne_nil_of_right_ne_nil _ (List.cons_ne_nil _ _)
  have habrt := hlegal.abrt_next crci h.abrt
  have htakes : (s.next decmd crci i).tx.fsm.load = true →
      (s.next decmd crci i).tx.usrt.state = .idle := fun _ => usrt_next hempty
  subst hnone
  have hstage : ∀ {rest'}, Buffer wr (s.next decmd crci i) rest' →
      (rest' = [] → (s.next decmd crci i).buf.txSom = true) →
      Stage decmd crci wr (s.next decmd crci i) rest' :=
    fun hbuffer hsom' => .leads (.inr hstate') (by rw [hstate']; nofun) hbuffer hsom' hroles'
      (fun hnil => absurd hnil hfirst)
  cases hlegal.written crci with
  | same hbuf hwrote _ =>
      have hsom' : (s.next decmd crci i).buf.txSom = true := by rw [hbuf, hsom.som]
      refine ⟨[], by rw [hwrote]; exact hlog, hstage (.lead hsom' ?_ ?_) fun _ => hsom', habrt,
        htakes⟩
      · rw [hbuf, hwrote]
        exact hsom.mem
      · rw [hwrote, hsom.none]
  | new hwr _ hstrobe hbuf hwrote =>
      have hlog' := hlog.write i.word
      rw [← hwrote] at hlog'
      cases hword : i.word.txSom with
      | true =>
          rw [hword, if_pos rfl] at hlog'
          have hsom' : (s.next decmd crci i).buf.txSom = true := by rw [hbuf, hword]
          refine ⟨[], hlog', hstage (.lead hsom' ?_ ?_) fun _ => hsom', habrt, htakes⟩
          · rw [hbuf, hwrote]
            exact List.mem_append_right _ (List.mem_singleton_self _)
          · rw [hwrote, body_append, hword, hsom.none]
            rfl
      | false =>
          -- The write meets the hand-over: the strobe must still be up at the next clock.
          have hgoes : wr = true := by
            refine hundisturbed.leads hwr hstrobe hword ?_
            unfold leads
            rw [hstate, hempty, hsend, hsom.som]
            rfl
          rw [hword, if_neg Bool.false_ne_true, List.nil_append, ← hbuf] at hlog'
          refine ⟨_, hlog', hstage (.raced (by rw [hbuf, hword]) hstate' hload ?_ hgoes)
            fun hnil => absurd hnil (List.cons_ne_nil _ _), habrt, htakes⟩
          rw [strobe_next, hwr]

/-- The message begins. -/
theorem Inv.step_body (h : Inv decmd crci i.wr s rest) (hlegal : Legal decmd s i)
    (hstate : s.tx.fsm.state = .startSync) (hempty : s.empty = true) (hsend : i.send = true)
    (hbuffer : Buffer i.wr s rest) (hrest : rest ≠ []) (hroles : ∀ x ∈ s.sent, x.role = .lead)
    (hsome : s.sent ≠ []) (wr : Bool) :
    ∃ rest', Inv decmd crci wr (s.next decmd crci i) rest' := by
  obtain ⟨hwait, hsom, rfl⟩ := hbuffer.load_of_raced hempty hrest
  have hfsm := next_startSync decmd crci h.abrt hstate hempty hsend
  rw [hsom, if_neg Bool.false_ne_true] at hfsm
  have hload : (s.next decmd crci i).tx.fsm.load = false := by
    rw [hfsm]
    rfl
  have hdone : (s.next decmd crci i).tx.fsm.txDone = false := by
    rw [hfsm]
    show (s.tx.fsm.txDone && !i.wr) = false
    rw [hwait]
    rfl
  obtain ⟨hbuf, hwrote⟩ := hlegal.same crci hwait
  have hsent := sent_next_of hload
  have hbuffer' : Buffer wr (s.next decmd crci i) [view (s.next decmd crci i).buf] :=
    .waiting (by rw [hbuf, hsom]) hdone
  rw [hbuf] at hbuffer'
  refine ⟨_, by rw [hsent, hwrote]; exact h.log, .payload (by rw [hfsm]) hbuffer'
    (by rw [hbuf, hsom]) (fun hnil => absurd hnil (List.cons_ne_nil _ _)) (hsent.symm ▸ hsome) ?_,
    hlegal.abrt_next crci h.abrt, fun _ => usrt_next hempty⟩
  rw [hsent]
  exact fun x hx => .inl (hroles x (List.mem_of_getLast? hx))

end DupSend

end KS10
