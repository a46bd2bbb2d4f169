import KS10.Dup.Stages

/-!
# The message, the check characters and the end of a transmission

The stages from the first character of the message on: the characters are handed over as the
program writes them, the word with TXEOM brings the two check characters and in SDLC mode the
closing flag, and a shift register that becomes empty with no word waiting brings the mark
hold.  With these every clock leads from a stage to one of the next (`Inv.step`).
-/

namespace KS10

namespace DupSend

variable {decmd crci wr : Bool} {s : DupSend} {i : In}
  {rest : List (Option (BitVec 8))}

/-! ## The message -/

/-- A word of the message has been written. -/
theorem Buffer.wrote_ne (h : Buffer wr s rest) (hlog : Log decmd crci s.wrote s.sent rest)
    (hsom : s.buf.txSom = false) : s.wrote ≠ [] := by
  intro hnil
  have hwords := hlog.words
  rw [hnil] at hwords
  have hleft : body [] = [] := rfl
  cases h with
  | waiting =>
      exact List.append_ne_nil_of_right_ne_nil _ (List.cons_ne_nil _ _) (hwords.symm.trans hleft)
  | lead hlead =>
      rw [hsom] at hlead
      cases hlead
  | raced =>
      exact List.append_ne_nil_of_right_ne_nil _ (List.cons_ne_nil _ _) (hwords.symm.trans hleft)
  | taken _ _ hsome =>
      rw [hnil] at hsome
      exact hsome rfl

theorem wrote_ne_next (h : s.wrote ≠ []) : (s.next decmd crci i).wrote ≠ [] := by
  rw [wrote_next]
  split_ifs
  · exact List.append_ne_nil_of_left_ne_nil h _
  · exact h

/-- A character of the message, or the first check character, is handed over. -/
theorem Inv.hand_over (h : Inv decmd crci i.wr s rest) (hlegal : Legal decmd s i)
    (hundisturbed : Undisturbed crci s i wr) (hhands : s.hands crci i = true)
    (hwait : s.tx.fsm.txDone = false) (hsom : s.buf.txSom = false)
    (hrest : rest = [view s.buf]) {x : DupItem}
    (hitem : (s.next decmd crci i).sent = s.sent ++ [x])
    (hdone : (s.next decmd crci i).tx.fsm.txDone = true)
    (hfollows : ∀ y ∈ s.sent.getLast?, Follows decmd crci y x) (hsome : s.sent ≠ [])
    (hshown : Shown decmd s.wrote x) (htaken : taken [x] = [view s.buf]) :
    (s.next decmd crci i).buf = s.buf ∧ Buffer wr (s.next decmd crci i) [] ∧
      Log decmd crci (s.next decmd crci i).wrote (s.next decmd crci i).sent [] := by
  obtain ⟨hbuf, hwrote⟩ := hlegal.same crci hwait
  have hlog := h.log.hand x [] hfollows (fun hnil => absurd hnil hsome) hshown
    (by rw [htaken, hrest]; rfl)
  rw [← hitem, ← hwrote] at hlog
  refine ⟨hbuf, .taken (by rw [hbuf, hsom]) hdone ?_ fun hstrobe => ?_, hlog⟩
  · rw [hwrote, h.log.words, hrest]
    exact List.append_ne_nil_of_right_ne_nil _ (List.cons_ne_nil _ _)
  · rw [strobe_next] at hstrobe
    exact hundisturbed.hands hstrobe hhands

/-- The end of the message has been asked for: the check follows, or the end without one. -/
theorem Inv.step_end (h : Inv decmd crci i.wr s rest) (hlegal : Legal decmd s i)
    (hundisturbed : Undisturbed crci s i wr) (hstate : s.tx.fsm.state = .payload)
    (hempty : s.empty = true) (hsend : i.send = true) (hbuffer : Buffer i.wr s rest)
    (hsom : s.buf.txSom = false) (heom : rest = [] → s.buf.txEom = false) (hsome : s.sent ≠ [])
    (hlast : ∀ x ∈ s.sent.getLast?, x.role = .lead ∨ x.role = .data ∨
      x.role = .close ∧ decmd = false ∧ crci = false)
    (hend : s.buf.txEom = true) : ∃ rest', Inv decmd crci wr (s.next decmd crci i) rest' := by
  have hfsm := next_payload decmd crci h.abrt hstate hempty hsend
  have habrt := hlegal.abrt_next crci h.abrt
  have htakes : (s.next decmd crci i).tx.fsm.load = true →
      (s.next decmd crci i).tx.usrt.state = .idle := fun _ => usrt_next hempty
  obtain ⟨y, hy⟩ := Option.ne_none_iff_exists'.mp (List.getLast?_eq_none_iff.not.mpr hsome)
  have hrest : rest ≠ [] := by
    intro hnone
    rw [heom hnone] at hend
    cases hend
  obtain ⟨hwait, -, rfl⟩ := hbuffer.load_of_raced hempty hrest
  obtain ⟨hbuf, hwrote⟩ := hlegal.same crci hwait
  have hview : view s.buf = none := by
    unfold view
    rw [hend, if_pos rfl]
  have hwritten : (s.next decmd crci i).wrote ≠ [] := wrote_ne_next (hbuffer.wrote_ne h.log hsom)
  have hsom' : (s.next decmd crci i).buf.txSom = false := by rw [hbuf, hsom]
  rw [hend, if_pos rfl] at hfsm
  cases crci with
  | true =>
      rw [if_pos rfl] at hfsm
      cases decmd with
      | true =>
          rw [if_pos rfl] at hfsm
          have hsent := @sent_next_of true true s i
            (by rw [hfsm]; rfl)
          have hstate' : (s.next true true i).tx.fsm.state = .done := by rw [hfsm]
          refine ⟨[view s.buf], by rw [hsent, hwrote]; exact h.log,
            .ended (by rw [hstate']; decide) hwritten hsom' (Nat.le_refl 1)
              (.inr ⟨by rw [hview]; rfl, y, by rw [hsent]; exact hy, ?_⟩), habrt, htakes⟩
          rcases hlast y hy with hrole | hrole | ⟨-, hno, -⟩
          · exact .inl hrole
          · exact .inr hrole
          · cases hno
      | false =>
          rw [if_neg Bool.false_ne_true] at hfsm
          have hitem : (s.next false true i).sent = s.sent ++ [⟨.close, .flag⟩] := by
            rw [sent_next_load (by rw [hfsm]), hfsm]
            rfl
          have hlog := h.log.hand ⟨.close, .flag⟩ [view s.buf]
            (fun x hx => by
              unfold Follows
              rcases hlast x hx with hrole | hrole | ⟨-, -, hno⟩
              · rw [hrole]; exact ⟨rfl, rfl⟩
              · rw [hrole]; exact ⟨rfl, rfl⟩
              · cases hno)
            (fun hnil => absurd hnil hsome) rfl rfl
          rw [← hitem, ← hwrote] at hlog
          have hstate' : (s.next false true i).tx.fsm.state = .wait := by rw [hfsm]
          exact ⟨[view s.buf], hlog, .ended (by rw [hstate']; decide) hwritten hsom'
            (Nat.le_refl 1) (.inr ⟨by rw [hview]; rfl, ⟨.close, .flag⟩,
              by rw [hitem, List.getLast?_concat]; rfl, rfl⟩), habrt, htakes⟩
  | false =>
      rw [if_neg Bool.false_ne_true] at hfsm
      have hstate' : (s.next decmd false i).tx.fsm.state = .sendCrcHi := by rw [hfsm]
      have hitem : (s.next decmd false i).sent = s.sent ++
          [⟨.checkHi, .char (!decmd) (DupTx.crcHi decmd s.tx.crcReg)⟩] := by
        rw [sent_next_load (by rw [hfsm]), hfsm]
        rfl
      obtain ⟨-, hbuffer', hlog⟩ := h.hand_over hlegal hundisturbed
        (by unfold DupSend.hands; rw [hstate, hempty, hsend, hend]; rfl) hwait hsom rfl hitem
        (by rw [hfsm])
        (fun x hx => by
          unfold Follows
          rcases hlast x hx with hrole | hrole | ⟨hrole, hdecmd, -⟩
          · rw [hrole]
          · rw [hrole]
          · rw [hrole]; exact ⟨hdecmd, rfl⟩)
        hsome ⟨_, rfl⟩ (by rw [hview]; rfl)
      refine ⟨[], hlog, .checkHi hstate' hbuffer' hsom' ?_ rfl (fun _ => rfl)
        ⟨s.tx.crcReg, by rw [hitem, List.getLast?_concat], by rw [hfsm]⟩, habrt, htakes⟩
      rw [hbuf, hend]
      exact ⟨fun _ => rfl, fun _ => rfl⟩

/-- The next character has not been written in time. -/
theorem Inv.step_underrun (h : Inv decmd crci i.wr s rest) (hlegal : Legal decmd s i)
    (hstate : s.tx.fsm.state = .payload) (hempty : s.empty = true) (hsend : i.send = true)
    (hbuffer : Buffer i.wr s rest) (hsom : s.buf.txSom = false) (hsome : s.sent ≠ [])
    (hend : s.buf.txEom = false) (hdone : s.tx.fsm.txDone = true) :
    ∃ rest', Inv decmd crci wr (s.next decmd crci i) rest' := by
  have hfsm := next_payload decmd crci h.abrt hstate hempty hsend
  have habrt := hlegal.abrt_next crci h.abrt
  have htakes : (s.next decmd crci i).tx.fsm.load = true →
      (s.next decmd crci i).tx.usrt.state = .idle := fun _ => usrt_next hempty
  rw [hend, if_neg Bool.false_ne_true] at hfsm
  rw [hdone, if_pos rfl] at hfsm
  have hload : (s.next decmd crci i).tx.fsm.load = false := by
    rw [hfsm]
    rfl
  have hsent := sent_next_of hload
  have hstate' : (s.next decmd crci i).tx.fsm.state = .markHold := by rw [hfsm]
  have hdone' : (s.next decmd crci i).tx.fsm.txDone = (s.tx.fsm.txDone && !i.wr) := by
    rw [hfsm]
    rfl
  obtain ⟨rest', hbuffer', hlog', hrenewed⟩ := hbuffer.renews h.log hlegal hdone' wr
  refine ⟨rest', hsent.symm ▸ hlog', .held hstate' ?_ (hrenewed.txSom hsom)
    (hsent.symm ▸ hsome) hbuffer'.length_le, habrt, htakes⟩
  exact wrote_ne_next (hbuffer.wrote_ne h.log hsom)

/-- The next character of the message. -/
theorem Inv.step_data (h : Inv decmd crci i.wr s rest) (hlegal : Legal decmd s i)
    (hundisturbed : Undisturbed crci s i wr) (hstate : s.tx.fsm.state = .payload)
    (hempty : s.empty = true) (hsend : i.send = true) (hbuffer : Buffer i.wr s rest)
    (hsom : s.buf.txSom = false) (hsome : s.sent ≠ [])
    (hlast : ∀ x ∈ s.sent.getLast?, x.role = .lead ∨ x.role = .data ∨
      x.role = .close ∧ decmd = false ∧ crci = false)
    (hend : s.buf.txEom = false) (hdone : s.tx.fsm.txDone = false) :
    ∃ rest', Inv decmd crci wr (s.next decmd crci i) rest' := by
  have hfsm := next_payload decmd crci h.abrt hstate hempty hsend
  have habrt := hlegal.abrt_next crci h.abrt
  have htakes : (s.next decmd crci i).tx.fsm.load = true →
      (s.next decmd crci i).tx.usrt.state = .idle := fun _ => usrt_next hempty
  rw [hend, if_neg Bool.false_ne_true] at hfsm
  rw [hdone, if_neg Bool.false_ne_true] at hfsm
  have hrest : rest ≠ [] := by
    rintro rfl
    cases hbuffer with
    | lead hlead =>
        rw [hsom] at hlead
        cases hlead
    | taken _ htaken =>
        rw [hdone] at htaken
        cases htaken
  obtain ⟨-, -, rfl⟩ := hbuffer.load_of_raced hempty hrest
  have hview : view s.buf = some s.buf.txDat := by
    unfold view
    rw [hend, if_neg Bool.false_ne_true]
  have hstate' : (s.next decmd crci i).tx.fsm.state = .payload := by
    rw [hfsm]
    exact hstate
  have hitem : (s.next decmd crci i).sent = s.sent ++
      [⟨.data, .char (!decmd) s.buf.txDat⟩] := by
    rw [sent_next_load (by rw [hfsm]), hfsm]
    simp [DupTx.Fsm.role, DupTx.Fsm.char, settled, DupTx.Fsm.settle, hstate]
  obtain ⟨hbuf, hbuffer', hlog⟩ := h.hand_over hlegal hundisturbed
    (by unfold DupSend.hands; rw [hstate, hempty, hsend, hend, hdone]; rfl) hdone hsom rfl
    hitem (by rw [hfsm])
    (fun x hx => by
      unfold Follows
      rcases hlast x hx with hrole | hrole | ⟨hrole, hdecmd, -⟩
      · rw [hrole]; trivial
      · rw [hrole]; trivial
      · rw [hrole]; exact hdecmd)
    hsome ⟨_, rfl⟩ (by rw [hview]; rfl)
  refine ⟨[], hlog, .payload hstate' hbuffer' (by rw [hbuf, hsom])
    (fun _ => by rw [hbuf, hend]) ?_ ?_, habrt, htakes⟩
  · rw [hitem]
    exact List.append_ne_nil_of_right_ne_nil _ (List.cons_ne_nil _ _)
  · rw [hitem, List.getLast?_concat]
    intro x hx
    obtain rfl : _ = x := Option.some.inj hx
    exact .inr (.inl rfl)

/-- The message goes on, and comes to its end. -/
theorem Inv.step_payload (h : Inv decmd crci i.wr s rest) (hlegal : Legal decmd s i)
    (hundisturbed : Undisturbed crci s i wr) (hstate : s.tx.fsm.state = .payload)
    (hempty : s.empty = true) (hsend : i.send = true) (hbuffer : Buffer i.wr s rest)
    (hsom : s.buf.txSom = false) (heom : rest = [] → s.buf.txEom = false) (hsome : s.sent ≠ [])
    (hlast : ∀ x ∈ s.sent.getLast?, x.role = .lead ∨ x.role = .data ∨
      x.role = .close ∧ decmd = false ∧ crci = false) :
    ∃ rest', Inv decmd crci wr (s.next decmd crci i) rest' := by
  cases hend : s.buf.txEom with
  | true =>
      exact h.step_end hlegal hundisturbed hstate hempty hsend hbuffer hsom heom hsome hlast hend
  | false =>
      cases hdone : s.tx.fsm.txDone with
      | true => exact h.step_underrun hlegal hstate hempty hsend hbuffer hsom hsome hend hdone
      | false =>
          exact h.step_data hlegal hundisturbed hstate hempty hsend hbuffer hsom hsome hlast hend
            hdone

/-! ## The check characters and the closing flag -/

/-- The second check character is handed over. -/
theorem Inv.step_checkHi (h : Inv decmd crci i.wr s rest) (hlegal : Legal decmd s i)
    (hstate : s.tx.fsm.state = .sendCrcHi) (hempty : s.empty = true)
    (hbuffer : Buffer i.wr s rest) (hsom : s.buf.txSom = false)
    (heom : rest = [] ↔ s.buf.txEom = true) (hcrci : crci = false) (hdec : decmd = true → rest = [])
    (hlast : ∃ r, s.sent.getLast? = some ⟨.checkHi, .char (!decmd) (DupTx.crcHi decmd r)⟩ ∧
      s.tx.fsm.crcLo = DupTx.crcLo decmd r) (wr : Bool) :
    ∃ rest', Inv decmd crci wr (s.next decmd crci i) rest' := by
  have hfsm := next_sendCrcHi decmd crci (i := i) h.abrt hstate hempty
  obtain ⟨r, hcheck, hcrcLo⟩ := hlast
  have hdone : (s.next decmd crci i).tx.fsm.txDone = (s.tx.fsm.txDone && !i.wr) := by
    rw [hfsm]
    rfl
  have hitem : (s.next decmd crci i).sent = s.sent ++
      [⟨.checkLo, .char (!decmd) (DupTx.crcLo decmd r)⟩] := by
    rw [sent_next_load (by rw [hfsm]), hfsm, hcrcLo]
    rfl
  have hsome : s.sent ≠ [] := by
    intro hnil
    rw [hnil] at hcheck
    cases hcheck
  obtain ⟨rest', hbuffer', hlog', hrenewed⟩ := hbuffer.renews h.log hlegal hdone wr
  obtain ⟨heom', hdec'⟩ := hrenewed.check hbuffer hsom heom hdec
  have hlog := hlog'.hand ⟨.checkLo, .char (!decmd) (DupTx.crcLo decmd r)⟩ rest'
    (fun y hy => by
      rw [hcheck] at hy
      obtain rfl : _ = y := Option.some.inj hy
      exact ⟨r, rfl, rfl⟩)
    (fun hnil => absurd hnil hsome) ⟨r, rfl⟩ rfl
  rw [← hitem] at hlog
  exact ⟨rest', hlog, .checkLo (by rw [hfsm]) hbuffer' (hrenewed.txSom hsom) heom' hcrci hdec'
    ⟨_, by rw [hitem, List.getLast?_concat]; rfl, .inl rfl⟩, hlegal.abrt_next crci h.abrt,
    fun _ => usrt_next hempty⟩

/-- After the check characters of DDCMP the line is released. -/
theorem Inv.step_release (h : Inv true false i.wr s rest) (hlegal : Legal true s i)
    (hstate : s.tx.fsm.state = .sendCrcLo) (hempty : s.empty = true)
    (hbuffer : Buffer i.wr s rest) (hsom : s.buf.txSom = false)
    (heom : rest = [] ↔ s.buf.txEom = true) (hdec : rest = [])
    (hlast : ∃ x ∈ s.sent.getLast?, x.role = .checkLo) (wr : Bool) :
    ∃ rest', Inv true false wr (s.next true false i) rest' := by
  have hfsm := next_sendCrcLo true false (i := i) h.abrt hstate hempty
  rw [if_pos rfl] at hfsm
  obtain ⟨x, hx, hrole⟩ := hlast
  have hwritten : (s.next true false i).wrote ≠ [] := wrote_ne_next (hbuffer.wrote_ne h.log hsom)
  have hdone : (s.next true false i).tx.fsm.txDone = (s.tx.fsm.txDone && !i.wr) := by
    rw [hfsm]
    rfl
  obtain ⟨rest', hbuffer', hlog', hrenewed⟩ := hbuffer.renews h.log hlegal hdone wr
  obtain ⟨-, hdec'⟩ := hrenewed.check hbuffer hsom heom fun _ => hdec
  have hsent := @sent_next_of true false s i
    (by rw [hfsm]; rfl)
  have hstate' : (s.next true false i).tx.fsm.state = .done := by rw [hfsm]
  exact ⟨rest', hsent.symm ▸ hlog', .ended (by rw [hstate']; decide) hwritten
    (hrenewed.txSom hsom) hbuffer'.length_le (.inr ⟨hdec' rfl, x, hsent.symm ▸ hx, hrole⟩),
    hlegal.abrt_next false h.abrt, fun _ => usrt_next hempty⟩

/-- After the check characters of the bit-oriented protocol a flag is handed over. -/
theorem Inv.step_flag (h : Inv false false i.wr s rest) (hlegal : Legal false s i)
    (hstate : s.tx.fsm.state = .sendCrcLo) (hempty : s.empty = true)
    (hbuffer : Buffer i.wr s rest) (hsom : s.buf.txSom = false)
    (heom : rest = [] ↔ s.buf.txEom = true)
    (hlast : ∃ x ∈ s.sent.getLast?, x.role = .checkLo ∨ x.role = .close) (wr : Bool) :
    ∃ rest', Inv false false wr (s.next false false i) rest' := by
  have hfsm := next_sendCrcLo false false (i := i) h.abrt hstate hempty
  rw [if_neg Bool.false_ne_true] at hfsm
  obtain ⟨x, hx, hrole⟩ := hlast
  have habrt := hlegal.abrt_next false h.abrt
  have htakes : (s.next false false i).tx.fsm.load = true →
      (s.next false false i).tx.usrt.state = .idle := fun _ => usrt_next hempty
  have hwritten : (s.next false false i).wrote ≠ [] :=
    wrote_ne_next (hbuffer.wrote_ne h.log hsom)
  have hdone : (s.next false false i).tx.fsm.txDone = (s.tx.fsm.txDone && !i.wr) := by
    rw [hfsm]
    split_ifs <;> rfl
  obtain ⟨rest', hbuffer', hlog', hrenewed⟩ := hbuffer.renews h.log hlegal hdone wr
  obtain ⟨heom', hdec'⟩ := hrenewed.check hbuffer hsom heom nofun
  have hload : (s.next false false i).tx.fsm.load = true := by rw [hfsm]
  have hitem : (s.next false false i).sent = s.sent ++ [⟨.close, .flag⟩] := by
    rw [sent_next_load hload, hfsm]
    cases i.send with
    | false => rfl
    | true => cases s.buf.txEom <;> rfl
  have hlog := hlog'.hand ⟨.close, .flag⟩ rest'
    (fun y hy => by
      obtain rfl : x = y := Option.some.inj (hx.symm.trans hy)
      unfold Follows
      rcases hrole with hrole | hrole
      · rw [hrole]
      · rw [hrole])
    (fun hnil => by rw [hnil] at hx; cases hx) rfl rfl
  rw [← hitem] at hlog
  have hlast : (⟨.close, .flag⟩ : DupItem) ∈ (s.next false false i).sent.getLast? := by
    rw [hitem, List.getLast?_concat]
    rfl
  have hsome : (s.next false false i).sent ≠ [] := by
    rw [hitem]
    exact List.append_ne_nil_of_right_ne_nil _ (List.cons_ne_nil _ _)
  by_cases hsend : i.send = true
  · by_cases hend : s.buf.txEom = true
    · rw [if_pos hsend, if_pos hend] at hfsm
      exact ⟨rest', hlog, .checkLo (by rw [hfsm]) hbuffer' (hrenewed.txSom hsom) heom' rfl hdec'
        ⟨_, hlast, .inr ⟨rfl, rfl⟩⟩, habrt, htakes⟩
    · -- The message behind a shared flag.
      rw [if_pos hsend, if_neg hend] at hfsm
      refine ⟨rest', hlog, .payload (by rw [hfsm]) hbuffer' (hrenewed.txSom hsom) ?_ hsome ?_,
        habrt, htakes⟩
      · intro hnone
        cases hrenewed with
        | same _ hbuf => exact absurd (heom.mp hnone) hend
        | som hbefore _ =>
            rw [hsom] at hbefore
            cases hbefore
        | word _ _ => cases hnone
      · intro y hy
        obtain rfl : _ = y := Option.some.inj (hlast.symm.trans hy)
        exact .inr (.inr ⟨rfl, rfl, rfl⟩)
  · -- The program has dropped SEND.
    have hnot : i.send = false := Bool.eq_false_iff.mpr hsend
    rw [if_neg hsend] at hfsm
    have hstate' : (s.next false false i).tx.fsm.state = .wait := by rw [hfsm]
    have hnone : rest' = [] := by
      rcases hlegal.send hnot with hidle | ⟨hended, -, hwr⟩
      · rw [hstate] at hidle
        cases hidle
      · have hend : s.buf.txEom = true := by
          unfold ended at hended
          exact (Bool.and_eq_true_iff.mp hended).1
        have hbuf : (s.next false false i).buf = s.buf := by
          rw [buf_next, hwr]
          rfl
        exact heom'.mpr (by rw [hbuf, hend])
    exact ⟨rest', hlog, .ended (by rw [hstate']; decide) hwritten (hrenewed.txSom hsom)
      hbuffer'.length_le (.inr ⟨hnone, _, hlast, rfl⟩), habrt, htakes⟩

/-- The line is released, or a flag is handed over. -/
theorem Inv.step_checkLo (h : Inv decmd crci i.wr s rest) (hlegal : Legal decmd s i)
    (hstate : s.tx.fsm.state = .sendCrcLo) (hempty : s.empty = true)
    (hbuffer : Buffer i.wr s rest) (hsom : s.buf.txSom = false)
    (heom : rest = [] ↔ s.buf.txEom = true) (hcrci : crci = false) (hdec : decmd = true → rest = [])
    (hlast : ∃ x ∈ s.sent.getLast?, x.role = .checkLo ∨ x.role = .close ∧ decmd = false)
    (wr : Bool) : ∃ rest', Inv decmd crci wr (s.next decmd crci i) rest' := by
  obtain ⟨x, hx, hrole⟩ := hlast
  subst hcrci
  cases decmd with
  | true =>
      have hcheck : x.role = .checkLo := by
        rcases hrole with hrole | ⟨-, hno⟩
        · exact hrole
        · cases hno
      exact h.step_release hlegal hstate hempty hbuffer hsom heom (hdec rfl) ⟨x, hx, hcheck⟩ wr
  | false =>
      exact h.step_flag hlegal hstate hempty hbuffer hsom heom
        ⟨x, hx, hrole.imp id And.left⟩ wr

/-! ## The end -/

/-- After an underrun there are aborts. -/
theorem Inv.step_held (h : Inv decmd crci i.wr s rest) (hlegal : Legal decmd s i)
    (hstate : s.tx.fsm.state = .markHold) (hempty : s.empty = true) (hwritten : s.wrote ≠ [])
    (hsom : s.buf.txSom = false) (hsome : s.sent ≠ []) (hlength : rest.length ≤ 1) (wr : Bool) :
    ∃ rest', Inv decmd crci wr (s.next decmd crci i) rest' := by
  have hfsm := next_markHold decmd crci (i := i) h.abrt hstate hempty
  have hopen : s.isOpen = false := by
    unfold isOpen
    rw [hstate]
  obtain ⟨hbuf, hwrote⟩ := hlegal.closed crci hopen
  have hitem : (s.next decmd crci i).sent = s.sent ++ [⟨.abort, .abort⟩] := by
    rw [sent_next_load (by rw [hfsm]), hfsm]
    rfl
  have hlog := h.log.hand ⟨.abort, .abort⟩ rest
    (fun y _ => by unfold Follows; cases y.role <;> trivial)
    (fun hnil => absurd hnil hsome) rfl rfl
  rw [← hitem, ← hwrote] at hlog
  have hmem : (⟨.abort, .abort⟩ : DupItem) ∈ (s.next decmd crci i).sent := by
    rw [hitem]
    exact List.mem_append_right _ (List.mem_singleton_self _)
  refine ⟨rest, hlog, ?_, hlegal.abrt_next crci h.abrt, fun _ => usrt_next hempty⟩
  by_cases hsend : i.send = true
  · have hstate' : (s.next decmd crci i).tx.fsm.state = .markHold := by
      rw [hfsm, hsend]
      rfl
    exact .held hstate' (hwrote.symm ▸ hwritten) (by rw [hbuf, hsom]) (List.ne_nil_of_mem hmem)
      hlength
  · have hstate' : (s.next decmd crci i).tx.fsm.state = .wait := by
      rw [hfsm, Bool.eq_false_iff.mpr hsend]
      rfl
    exact .ended (by rw [hstate']; decide) (hwrote.symm ▸ hwritten) (by rw [hbuf, hsom]) hlength
      (.inl ⟨_, hmem, rfl⟩)

/-- The transmission is over. -/
theorem Inv.step_over (h : Inv decmd crci i.wr s rest) (hlegal : Legal decmd s i)
    (hstate : s.tx.fsm.state ∈ [.wait, .done, .idle]) (hwait : s.tx.fsm.state = .wait →
      s.empty = true) (hwritten : s.wrote ≠ []) (hsom : s.buf.txSom = false)
    (hlength : rest.length ≤ 1) (hwhole : (∃ x ∈ s.sent, x.role = .abort) ∨
      rest = leftOver crci ∧ ∃ x ∈ s.sent.getLast?, Closed decmd crci x) (wr : Bool) :
    ∃ rest', Inv decmd crci wr (s.next decmd crci i) rest' := by
  obtain ⟨hbuf, hwrote⟩ := hlegal.closed crci (isOpen_over hstate hwritten)
  have hgoes : (s.next decmd crci i).tx.fsm.load = false ∧
      (s.next decmd crci i).tx.fsm.state ∈ [.wait, .done, .idle] := by
    simp only [List.mem_cons, List.not_mem_nil, or_false] at hstate ⊢
    rcases hstate with hs | hs | hs
    · rw [next_wait decmd crci h.abrt hs (hwait hs)]
      exact ⟨rfl, .inr (.inl rfl)⟩
    · rw [next_done decmd crci h.abrt hs]
      split_ifs
      · exact ⟨rfl, .inr (.inr rfl)⟩
      · exact ⟨rfl, .inr (.inl hs)⟩
    · rw [next_idle decmd crci h.abrt hs, hsom, Bool.and_false, if_neg Bool.false_ne_true]
      exact ⟨rfl, .inr (.inr hs)⟩
  obtain ⟨hload, hstate'⟩ := hgoes
  have hsent := sent_next_of hload
  refine ⟨rest, by rw [hsent, hwrote]; exact h.log, .ended hstate' (hwrote.symm ▸ hwritten)
    (by rw [hbuf, hsom]) hlength (hsent.symm ▸ hwhole), hlegal.abrt_next crci h.abrt, ?_⟩
  rw [hload]
  nofun

/-! ## One clock -/

/-- The program keeps SEND in front of a decision that reads it. -/
theorem Legal.sends (h : Legal decmd s i) (hstate : s.tx.fsm.state ≠ .idle)
    (hnot : s.buf.txEom = false ∨ s.buf.txSom = true ∨ s.tx.fsm.txDone = false) :
    i.send = true := by
  rw [← Bool.not_eq_false]
  intro hsend
  rcases h.send hsend with hidle | ⟨hended, hdone, -⟩
  · exact hstate hidle
  · unfold ended at hended
    rw [Bool.and_eq_true_iff, Bool.not_eq_true'] at hended
    rcases hnot with heom | hsom | hwait
    · rw [heom] at hended
      cases hended.1
    · rw [hsom] at hended
      cases hended.2
    · rw [hwait] at hdone
      cases hdone

theorem Inv.step (h : Inv decmd crci i.wr s rest) (hlegal : Legal decmd s i)
    (hundisturbed : Undisturbed crci s i wr) :
    ∃ rest', Inv decmd crci wr (s.next decmd crci i) rest' := by
  by_cases hbusy : waits s.tx.fsm.state = true ∧ s.empty = false
  · exact h.step_waits hlegal hbusy.1 hbusy.2 wr
  have hempty : ∀ {st}, s.tx.fsm.state = st → waits st = true → s.empty = true := by
    intro st hs hwaits
    rw [← Bool.not_eq_false]
    exact fun hnot => hbusy ⟨hs ▸ hwaits, hnot⟩
  cases h.stage with
  | fresh hstate hempty hstrobe hsom hwrote hsent hnone =>
      exact h.step_fresh hlegal hstate hempty hstrobe hsom hwrote hsent hnone wr
  | start hstate hzero hempty hdone hsom hsent hnone =>
      exact h.step_start hlegal hstate hzero hempty hdone hsom hsent hnone wr
  | leads hstate hzero hbuffer hsom hroles hfirst =>
      rcases hstate with hstate | hstate
      · have hsome : s.sent ≠ [] := by
          intro hnil
          have hsync := (hfirst hnil).1
          rw [hstate] at hsync
          cases hsync
        exact h.step_preFlag2 hlegal hstate (hzero hstate) (hempty hstate rfl) hbuffer hsom hroles
          hsome wr
      · have hne : s.tx.fsm.state ≠ .idle := by
          rw [hstate]
          nofun
        have hempty' := hempty hstate rfl
        cases hbuffer with
        | lead hlead hmem hnone =>
            exact h.step_sync hlegal hundisturbed hstate hempty'
              (hlegal.sends hne (.inr (.inl hlead))) ⟨hlead, hmem, hnone⟩ rfl hroles
        | waiting hlead hwait =>
            have hsome : s.sent ≠ [] := by
              intro hnil
              rw [(hfirst hnil).2.1] at hlead
              cases hlead
            exact h.step_body hlegal hstate hempty' (hlegal.sends hne (.inr (.inr hwait)))
              (.waiting hlead hwait) (List.cons_ne_nil _ _) hroles hsome wr
        | raced _ _ hload =>
            unfold empty at hempty'
            rw [hload, Bool.not_true, Bool.and_false] at hempty'
            cases hempty'
        | taken hlead =>
            rw [hsom rfl] at hlead
            cases hlead
  | payload hstate hbuffer hsom heom hsome hlast =>
      have hne : s.tx.fsm.state ≠ .idle := by
        rw [hstate]
        nofun
      have hsend : i.send = true := by
        by_cases hnone : rest = []
        · exact hlegal.sends hne (.inl (heom hnone))
        · exact hlegal.sends hne
            (.inr (.inr (hbuffer.load_of_raced (hempty hstate rfl) hnone).1))
      exact h.step_payload hlegal hundisturbed hstate (hempty hstate rfl) hsend hbuffer hsom heom
        hsome hlast
  | checkHi hstate hbuffer hsom heom hcrci hdec hlast =>
      exact h.step_checkHi hlegal hstate (hempty hstate rfl) hbuffer hsom heom hcrci hdec hlast wr
  | checkLo hstate hbuffer hsom heom hcrci hdec hlast =>
      exact h.step_checkLo hlegal hstate (hempty hstate rfl) hbuffer hsom heom hcrci hdec hlast wr
  | held hstate hwritten hsom hsome hlength =>
      exact h.step_held hlegal hstate (hempty hstate rfl) hwritten hsom hsome hlength wr
  | ended hstate hwritten hsom hlength hwhole =>
      exact h.step_over hlegal hstate (fun hwait => hempty hwait rfl) hwritten hsom hlength hwhole wr

/-- Before the transmission nothing has been written. -/
theorem Start.inv (h : Start s) : Inv decmd crci wr s [] := by
  have hempty : s.empty = true := by
    unfold empty
    rw [h.usrt, h.load]
    rfl
  refine ⟨⟨?_, ?_, ?_, ?_⟩, .fresh h.state hempty h.strobe h.txSom h.wrote h.sent rfl, h.txAbrt,
    fun _ => h.usrt⟩
  · rw [h.sent]
    exact List.isChain_nil
  · rw [h.sent]
    nofun
  · rw [h.sent]
    nofun
  · rw [h.wrote, h.sent]
    rfl

/-! ## The stage of a state -/

theorem Inv.length_le (h : Inv decmd crci wr s rest) : rest.length ≤ 1 := by
  cases h.stage with
  | fresh _ _ _ _ _ _ hnone => exact hnone ▸ Nat.zero_le 1
  | start _ _ _ _ _ _ hnone => exact hnone ▸ Nat.zero_le 1
  | leads _ _ hbuffer => exact hbuffer.length_le
  | payload _ hbuffer => exact hbuffer.length_le
  | checkHi _ hbuffer => exact hbuffer.length_le
  | checkLo _ hbuffer => exact hbuffer.length_le
  | held _ _ _ _ hlength => exact hlength
  | ended _ _ _ hlength => exact hlength

/-- While TXDONE is set and no strobe is up, no word is waiting. -/
theorem Buffer.none (h : Buffer wr s rest) (hstrobe : s.strobe = false)
    (hdone : s.tx.fsm.txDone = true) : rest = [] := by
  cases h with
  | waiting _ hwait =>
      rw [hwait] at hdone
      cases hdone
  | lead => rfl
  | raced _ _ _ hup =>
      rw [hstrobe] at hup
      cases hup
  | taken => rfl

theorem Inv.none (h : Inv decmd crci wr s rest) (hstrobe : s.strobe = false)
    (hdone : s.tx.fsm.txDone = true) (hopen : s.isOpen = true) : rest = [] := by
  cases h.stage with
  | fresh _ _ _ _ _ _ hnone => exact hnone
  | start _ _ _ _ _ _ hnone => exact hnone
  | leads _ _ hbuffer => exact hbuffer.none hstrobe hdone
  | payload _ hbuffer => exact hbuffer.none hstrobe hdone
  | checkHi _ hbuffer => exact hbuffer.none hstrobe hdone
  | checkLo _ hbuffer => exact hbuffer.none hstrobe hdone
  | held hstate =>
      unfold isOpen at hopen
      rw [hstate] at hopen
      cases hopen
  | ended hstate hwritten =>
      rw [isOpen_over hstate hwritten] at hopen
      cases hopen

theorem Inv.kept (h : Inv decmd crci wr s rest) : Kept decmd crci s where
  order := h.log.order
  first := h.log.first
  shown := h.log.shown
  words := ⟨rest, h.log.words, h.length_le⟩
  noneLost hstrobe hdone hopen := by
    rw [h.log.words, h.none hstrobe hdone hopen, List.append_nil]
  takes := h.takes
  whole hdone hnone := by
    cases h.stage with
    | fresh hstate =>
        rw [hdone] at hstate
        cases hstate
    | start hstate =>
        rw [hdone] at hstate
        simp at hstate
    | leads hstate =>
        rw [hdone] at hstate
        rcases hstate with hstate | hstate <;> cases hstate
    | payload hstate =>
        rw [hdone] at hstate
        cases hstate
    | checkHi hstate =>
        rw [hdone] at hstate
        cases hstate
    | checkLo hstate =>
        rw [hdone] at hstate
        cases hstate
    | held hstate =>
        rw [hdone] at hstate
        cases hstate
    | ended _ _ _ _ hwhole =>
        rcases hwhole with ⟨x, hx, hrole⟩ | ⟨hleft, hlast⟩
        · exact absurd hrole (hnone x hx)
        · exact ⟨by rw [h.log.words, hleft], hlast⟩

end DupSend

end KS10
