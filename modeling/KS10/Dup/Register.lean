import Mathlib.Tactic.SplitIfs
import KS10.Dup.Program

/-!
# The data buffer register and the state machine of the DUP11

At every clock the word in TXDBUF is either waiting, or it has been taken, or it is one with
TXSOM (`Buffer`).  A waiting word has TXDONE clear, but for the first clock after a write that
met the hand-over of a synchronization character or flag: there the write strobe must still be
up.  A word that has been taken has TXDONE set, and its write strobe must be over.

What a clock does to the register and to the words that are left is `Buffer.renews`, and what
the state machine decides in each of its states is one lemma a state.
-/

namespace KS10

open Clocked

namespace DupSend

/-- What the transmitter acts upon for a word of the message. -/
def view (w : DupWord) : Option (BitVec 8) := if w.txEom then none else some w.txDat

/-- The word in the register, with what is left of the words of the message.  `wr` is the write
strobe of this clock. -/
inductive Buffer (wr : Bool) (s : DupSend) : List (Option (BitVec 8)) → Prop
  | waiting (som : s.buf.txSom = false) (done : s.tx.fsm.txDone = false) : Buffer wr s [view s.buf]
  | lead (som : s.buf.txSom = true) (mem : s.buf ∈ s.wrote) (none : body s.wrote = []) :
      Buffer wr s []
  | raced (som : s.buf.txSom = false) (state : s.tx.fsm.state = .startSync)
      (load : s.tx.fsm.load = true) (strobe : s.strobe = true) (goesOn : wr = true) :
      Buffer wr s [view s.buf]
  | taken (som : s.buf.txSom = false) (done : s.tx.fsm.txDone = true) (some : body s.wrote ≠ [])
      (ended : s.strobe = true → wr = false) : Buffer wr s []

variable {decmd crci wr : Bool} {s : DupSend} {i : In}
  {rest : List (Option (BitVec 8))}

/-! ## The words -/

theorem body_append (words : List DupWord) (w : DupWord) :
    body (words ++ [w]) = body words ++ if w.txSom then [] else [view w] := by
  unfold body view
  rw [List.filterMap_append]
  cases hsom : w.txSom with
  | false => simp [hsom]
  | true => simp [hsom]

theorem taken_append (items : List DupItem) (x : DupItem) :
    taken (items ++ [x]) = taken items ++ taken [x] := by
  unfold taken
  rw [List.filterMap_append]

theorem buf_next : (s.next decmd crci i).buf = if i.wr then i.word else s.buf := rfl

theorem wrote_next : (s.next decmd crci i).wrote =
    if i.wr && !s.strobe then s.wrote ++ [i.word] else s.wrote := rfl

theorem strobe_next : (s.next decmd crci i).strobe = i.wr := rfl

theorem sent_next : (s.next decmd crci i).sent =
    s.sent ++ (s.next decmd crci i).tx.fsm.handed := rfl

theorem fsm_next : (s.next decmd crci i).tx.fsm =
    s.tx.fsm.step s.empty s.tx.crcReg (s.txIn decmd crci i) := rfl

/-- What a clock writes. -/
inductive Written (decmd crci : Bool) (s : DupSend) (i : In) : Prop
  | same (buf : (s.next decmd crci i).buf = s.buf) (wrote : (s.next decmd crci i).wrote = s.wrote)
      (strobe : i.wr = true → s.strobe = true)
  | new (wr : i.wr = true) (writes : Writes decmd s i.word) (strobe : s.strobe = false)
      (buf : (s.next decmd crci i).buf = i.word)
      (wrote : (s.next decmd crci i).wrote = s.wrote ++ [i.word])

theorem Legal.written (crci : Bool) (h : Legal decmd s i) : Written decmd crci s i := by
  cases hwr : i.wr with
  | false =>
      refine .same ?_ ?_ fun h => ?_
      · rw [buf_next, hwr]
        rfl
      · rw [wrote_next, hwr]
        rfl
      · rw [hwr] at h
        cases h
  | true =>
      cases hstrobe : s.strobe with
      | false =>
          refine .new hwr (h.begins hwr hstrobe) hstrobe ?_ ?_
          · rw [buf_next, hwr]
            rfl
          · rw [wrote_next, hwr, hstrobe]
            rfl
      | true =>
          refine .same ?_ ?_ fun _ => hstrobe
          · rw [buf_next, hwr, if_pos rfl]
            exact h.holds hwr hstrobe
          · rw [wrote_next, hwr, hstrobe]
            rfl

theorem Buffer.length_le (h : Buffer wr s rest) : rest.length ≤ 1 := by
  cases h with
  | waiting => exact Nat.le_refl 1
  | lead => exact Nat.zero_le 1
  | raced => exact Nat.le_refl 1
  | taken => exact Nat.zero_le 1

/-! ## The characters -/

/-- The words that were written, the characters that were handed over, and what is left. -/
structure Log (decmd crci : Bool) (wrote : List DupWord) (sent : List DupItem)
    (rest : List (Option (BitVec 8))) : Prop where
  order : sent.IsChain (Follows decmd crci)
  first : ∀ x ∈ sent.head?, x.role = .lead
  shown : ∀ x ∈ sent, Shown decmd wrote x
  words : body wrote = taken sent ++ rest

variable {wrote : List DupWord} {sent : List DupItem}

theorem Shown.mono {x : DupItem} {w : DupWord} (h : Shown decmd wrote x) :
    Shown decmd (wrote ++ [w]) x := by
  unfold Shown at h ⊢
  cases hrole : x.role with
  | lead =>
      rw [hrole] at h
      dsimp only at h ⊢
      split_ifs at h ⊢ with hdecmd
      · obtain ⟨v, hv, hsom⟩ := h
        exact ⟨v, List.mem_append_left _ hv, hsom⟩
      · exact h
  | data => rw [hrole] at h; exact h
  | checkHi => rw [hrole] at h; exact h
  | checkLo => rw [hrole] at h; exact h
  | close => rw [hrole] at h; exact h
  | abort => rw [hrole] at h; exact h

/-- A word is written. -/
theorem Log.write (h : Log decmd crci wrote sent rest) (w : DupWord) :
    Log decmd crci (wrote ++ [w]) sent (rest ++ if w.txSom then [] else [view w]) where
  order := h.order
  first := h.first
  shown x hx := (h.shown x hx).mono
  words := by rw [body_append, h.words, List.append_assoc]

/-- A character is handed over. -/
theorem Log.hand (h : Log decmd crci wrote sent rest) (x : DupItem)
    (rest' : List (Option (BitVec 8))) (hfollows : ∀ y ∈ sent.getLast?, Follows decmd crci y x)
    (hfirst : sent = [] → x.role = .lead) (hshown : Shown decmd wrote x)
    (htaken : rest = taken [x] ++ rest') : Log decmd crci wrote (sent ++ [x]) rest' where
  order := by
    rw [List.isChain_append]
    refine ⟨h.order, List.isChain_singleton x, fun y hy z hz => ?_⟩
    obtain rfl : z = x := by simpa using hz.symm
    exact hfollows y hy
  first := by
    intro y hy
    cases hsent : sent with
    | nil =>
        rw [hsent] at hy
        obtain rfl : x = y := by simpa using hy
        exact hfirst hsent
    | cons z sent' =>
        have hhead := h.first
        rw [hsent] at hy hhead
        exact hhead y hy
  shown := by
    intro y hy
    rcases List.mem_append.mp hy with hy | hy
    · exact h.shown y hy
    · rw [List.mem_singleton.mp hy]
      exact hshown
  words := by rw [taken_append, h.words, htaken, List.append_assoc]

/-! ## The register at one clock -/

/-- What a clock does to the register and to the words that are left, if no character is handed
over. -/
inductive Renewed (decmd : Bool) (s s' : DupSend) :
    List (Option (BitVec 8)) → List (Option (BitVec 8)) → Prop
  | same (rest : List (Option (BitVec 8))) (buf : s'.buf = s.buf) : Renewed decmd s s' rest rest
  | som (before : s.buf.txSom = true) (after : s'.buf.txSom = true) : Renewed decmd s s' [] []
  | word (writes : Writes decmd s s'.buf) (som : s'.buf.txSom = false) :
      Renewed decmd s s' [] [view s'.buf]

/-- The register and the list of the words after a clock that hands no character over, or one
that does not set TXDONE. -/
theorem Buffer.renews (h : Buffer i.wr s rest) (hlog : Log decmd crci s.wrote s.sent rest)
    (hlegal : Legal decmd s i)
    (hdone : (s.next decmd crci i).tx.fsm.txDone = (s.tx.fsm.txDone && !i.wr)) (wr : Bool) :
    ∃ rest', Buffer wr (s.next decmd crci i) rest' ∧
      Log decmd crci (s.next decmd crci i).wrote s.sent rest' ∧
      Renewed decmd s (s.next decmd crci i) rest rest' := by
  have hwaiting : s.buf.txSom = false → (s.next decmd crci i).buf = s.buf →
      (s.next decmd crci i).tx.fsm.txDone = false →
        Buffer wr (s.next decmd crci i) [view s.buf] := by
    intro hsom hbuf hwait
    have hbuffer : Buffer wr (s.next decmd crci i) [view (s.next decmd crci i).buf] :=
      .waiting (by rw [hbuf, hsom]) hwait
    rw [hbuf] at hbuffer
    exact hbuffer
  cases hlegal.written crci with
  | same hbuf hwrote hstrobe =>
      refine ⟨rest, ?_, hwrote.symm ▸ hlog, .same rest hbuf⟩
      cases h with
      | waiting hsom hwait =>
          refine hwaiting hsom hbuf ?_
          rw [hdone, hwait]
          rfl
      | lead hsom hmem hnone =>
          exact .lead (by rw [hbuf, hsom]) (by rw [hbuf, hwrote]; exact hmem)
            (by rw [hwrote, hnone])
      | raced hsom hstate hload hstrobe' hgoes =>
          refine hwaiting hsom hbuf ?_
          rw [hdone, hgoes, Bool.not_true, Bool.and_false]
      | taken hsom htaken hsome hover =>
          have hwr : i.wr = false := by
            cases hwr : i.wr with
            | false => rfl
            | true =>
                have hnot := hover (hstrobe hwr)
                rw [hwr] at hnot
                cases hnot
          refine .taken (by rw [hbuf, hsom]) ?_ (by rw [hwrote]; exact hsome) fun hprev => ?_
          · rw [hdone, htaken, hwr]
            rfl
          · rw [strobe_next, hwr] at hprev
            cases hprev
  | new hwr hwrites hstrobe hbuf hwrote =>
      have hword : i.word.txSom = false → rest = [] →
          ∃ rest', Buffer wr (s.next decmd crci i) rest' ∧
            Log decmd crci (s.next decmd crci i).wrote s.sent rest' ∧
            Renewed decmd s (s.next decmd crci i) rest rest' := by
        rintro hsom rfl
        have hlog' := hlog.write i.word
        rw [hsom, if_neg Bool.false_ne_true, List.nil_append, ← hwrote, ← hbuf] at hlog'
        refine ⟨_, .waiting (by rw [hbuf, hsom]) ?_, hlog', .word (hbuf.symm ▸ hwrites) ?_⟩
        · rw [hdone, hwr, Bool.not_true, Bool.and_false]
        · rw [hbuf, hsom]
      cases h with
      | waiting hsom hwait =>
          have hasked := hwrites.asked
          rw [hwait] at hasked
          cases hasked
      | lead hsom hmem hnone =>
          cases hsom' : i.word.txSom with
          | false => exact hword hsom' rfl
          | true =>
              have hlog' := hlog.write i.word
              rw [hsom', if_pos rfl, List.nil_append, ← hwrote] at hlog'
              have hafter : (s.next decmd crci i).buf.txSom = true := by rw [hbuf, hsom']
              refine ⟨[], .lead hafter ?_ ?_, hlog', .som hsom hafter⟩
              · rw [hbuf, hwrote]
                exact List.mem_append_right _ (List.mem_singleton_self _)
              · rw [hwrote, body_append, hsom', hnone]
                rfl
      | raced hsom hstate hload hstrobe' hgoes =>
          rw [hstrobe] at hstrobe'
          cases hstrobe'
      | taken hsom htaken hsome hover =>
          refine hword ?_ rfl
          cases hsom' : i.word.txSom with
          | false => rfl
          | true => exact absurd (hwrites.order hsom') hsome

theorem Legal.abrt_next (crci : Bool) (h : Legal decmd s i)
    (habrt : s.buf.txAbrt = false) :
    (s.next decmd crci i).buf.txAbrt = false := by
  rw [buf_next]
  by_cases hwr : i.wr = true
  · rw [if_pos hwr]
    exact h.noAbort hwr
  · rw [if_neg hwr]
    exact habrt

/-! ## The state machine -/

/-- What every clock does first. -/
def settled (decmd crci : Bool) (s : DupSend) (i : In) : DupTx.Fsm :=
  s.tx.fsm.settle (s.txIn decmd crci i)

/-- The states that wait for the shift register. -/
def waits : DupTx.State → Bool
  | .preFlag2 | .startSync | .payload | .sendCrcHi | .sendCrcLo | .markHold | .wait => true
  | _ => false

section

variable (decmd crci)

theorem next_waits (hwaits : waits s.tx.fsm.state = true)
    (hempty : s.empty = false) : (s.next decmd crci i).tx.fsm = settled decmd crci s i := by
  rw [fsm_next, hempty]
  unfold DupTx.Fsm.step
  rw [Bool.false_and, Bool.false_and, if_neg Bool.false_ne_true]
  cases hstate : s.tx.fsm.state with
  | preFlag2 => rfl
  | startSync => rfl
  | payload => rfl
  | sendCrcHi => rfl
  | sendCrcLo => rfl
  | markHold => rfl
  | wait => rfl
  | idle | startDelay1 | startDelay2 | startDelay3 | preFlag1 | done =>
      rw [hstate] at hwaits
      cases hwaits

theorem next_startSync (habrt : s.buf.txAbrt = false) (hstate : s.tx.fsm.state = .startSync)
    (hempty : s.empty = true) (hsend : i.send = true) : (s.next decmd crci i).tx.fsm =
      if s.buf.txSom then
        { settled decmd crci s i with
          load := true, txDone := true, flag := !decmd, data := if decmd then s.buf.txDat else 0 }
      else { settled decmd crci s i with crcInit := true, state := .payload } := by
  have habrt' : (s.txIn decmd crci i).txAbrt = false := habrt
  have hsend' : (s.txIn decmd crci i).send = true := hsend
  rw [fsm_next, hempty]
  unfold DupTx.Fsm.step
  rw [habrt', hsend', hstate]
  cases decmd with
  | false => rfl
  | true => rfl

theorem next_payload (habrt : s.buf.txAbrt = false) (hstate : s.tx.fsm.state = .payload)
    (hempty : s.empty = true) (hsend : i.send = true) : (s.next decmd crci i).tx.fsm =
      if s.buf.txEom then
        if crci then
          if decmd then { settled decmd crci s i with state := .done }
          else
            { settled decmd crci s i with
              flag := true, zbi := true, load := true, data := 0, state := .wait }
        else
          { settled decmd crci s i with
            zbi := !decmd
            load := true
            txDone := true
            state := .sendCrcHi
            data := DupTx.crcHi decmd s.tx.crcReg
            crcLo := DupTx.crcLo decmd s.tx.crcReg }
      else if s.tx.fsm.txDone then { settled decmd crci s i with state := .markHold }
      else
        { settled decmd crci s i with
          zbi := !decmd, load := true, txDone := true, data := s.buf.txDat } := by
  have habrt' : (s.txIn decmd crci i).txAbrt = false := habrt
  have hsend' : (s.txIn decmd crci i).send = true := hsend
  rw [fsm_next, hempty]
  unfold DupTx.Fsm.step
  rw [habrt', hsend', hstate]
  rfl

theorem next_sendCrcHi (habrt : s.buf.txAbrt = false) (hstate : s.tx.fsm.state = .sendCrcHi)
    (hempty : s.empty = true) : (s.next decmd crci i).tx.fsm =
      { settled decmd crci s i with
        zbi := !decmd, load := true, data := s.tx.fsm.crcLo, state := .sendCrcLo } := by
  have habrt' : (s.txIn decmd crci i).txAbrt = false := habrt
  rw [fsm_next, hempty]
  unfold DupTx.Fsm.step
  rw [habrt', hstate, Bool.and_false]
  rfl

theorem next_sendCrcLo (habrt : s.buf.txAbrt = false) (hstate : s.tx.fsm.state = .sendCrcLo)
    (hempty : s.empty = true) : (s.next decmd crci i).tx.fsm =
      if decmd then { settled decmd crci s i with state := .done }
      else
        { settled decmd crci s i with
          flag := true
          load := true
          data := 0
          state := if i.send then if s.buf.txEom then .sendCrcLo else .payload else .wait } := by
  have habrt' : (s.txIn decmd crci i).txAbrt = false := habrt
  rw [fsm_next, hempty]
  unfold DupTx.Fsm.step
  rw [habrt', hstate, Bool.and_false]
  rfl

theorem next_markHold (habrt : s.buf.txAbrt = false) (hstate : s.tx.fsm.state = .markHold)
    (hempty : s.empty = true) : (s.next decmd crci i).tx.fsm =
      { settled decmd crci s i with
        abrt := true
        load := true
        data := 0
        txDone := true
        state := if !i.send then .wait else .markHold } := by
  have habrt' : (s.txIn decmd crci i).txAbrt = false := habrt
  rw [fsm_next, hempty]
  unfold DupTx.Fsm.step
  rw [habrt', hstate, Bool.and_false]
  rfl

theorem next_wait (habrt : s.buf.txAbrt = false) (hstate : s.tx.fsm.state = .wait)
    (hempty : s.empty = true) : (s.next decmd crci i).tx.fsm =
      { settled decmd crci s i with state := .done } := by
  have habrt' : (s.txIn decmd crci i).txAbrt = false := habrt
  rw [fsm_next, hempty]
  unfold DupTx.Fsm.step
  rw [habrt', hstate, Bool.and_false]
  rfl

theorem next_preFlag2 (habrt : s.buf.txAbrt = false) (hstate : s.tx.fsm.state = .preFlag2)
    (hempty : s.empty = true) : (s.next decmd crci i).tx.fsm =
      { settled decmd crci s i with load := true, data := 0, state := .startSync } := by
  have habrt' : (s.txIn decmd crci i).txAbrt = false := habrt
  rw [fsm_next, hempty]
  unfold DupTx.Fsm.step
  rw [habrt', hstate, Bool.and_false]
  rfl

theorem next_preFlag1 (habrt : s.buf.txAbrt = false) (hstate : s.tx.fsm.state = .preFlag1) :
    (s.next decmd crci i).tx.fsm =
      if i.txCen then
        { settled decmd crci s i with load := true, data := 0, txDone := true, state := .preFlag2 }
      else settled decmd crci s i := by
  have habrt' : (s.txIn decmd crci i).txAbrt = false := habrt
  rw [fsm_next]
  unfold DupTx.Fsm.step
  rw [habrt', hstate, Bool.and_false]
  rfl

theorem next_idle (habrt : s.buf.txAbrt = false) (hstate : s.tx.fsm.state = .idle) :
    (s.next decmd crci i).tx.fsm =
      if i.txCen && i.send && s.buf.txSom then
        if !decmd && s.buf.txEom then { settled decmd crci s i with state := .preFlag1 }
        else { settled decmd crci s i with state := .startDelay1 }
      else settled decmd crci s i := by
  have habrt' : (s.txIn decmd crci i).txAbrt = false := habrt
  rw [fsm_next]
  unfold DupTx.Fsm.step
  rw [habrt', hstate, Bool.and_false]
  rfl

theorem next_done (habrt : s.buf.txAbrt = false) (hstate : s.tx.fsm.state = .done) :
    (s.next decmd crci i).tx.fsm =
      if i.rxCen then
        { settled decmd crci s i with txAct := false, txDone := true, state := .idle }
      else settled decmd crci s i := by
  have habrt' : (s.txIn decmd crci i).txAbrt = false := habrt
  rw [fsm_next]
  unfold DupTx.Fsm.step
  rw [habrt', hstate, Bool.and_false]
  rfl

theorem next_startDelay1 (habrt : s.buf.txAbrt = false) (hstate : s.tx.fsm.state = .startDelay1) :
    (s.next decmd crci i).tx.fsm =
      if i.txCen then { settled decmd crci s i with state := .startDelay2 }
      else settled decmd crci s i := by
  have habrt' : (s.txIn decmd crci i).txAbrt = false := habrt
  rw [fsm_next]
  unfold DupTx.Fsm.step
  rw [habrt', hstate, Bool.and_false]
  rfl

theorem next_startDelay2 (habrt : s.buf.txAbrt = false) (hstate : s.tx.fsm.state = .startDelay2) :
    (s.next decmd crci i).tx.fsm =
      if i.txCen then { settled decmd crci s i with state := .startDelay3 }
      else settled decmd crci s i := by
  have habrt' : (s.txIn decmd crci i).txAbrt = false := habrt
  rw [fsm_next]
  unfold DupTx.Fsm.step
  rw [habrt', hstate, Bool.and_false]
  rfl

theorem next_startDelay3 (habrt : s.buf.txAbrt = false) (hstate : s.tx.fsm.state = .startDelay3) :
    (s.next decmd crci i).tx.fsm =
      if i.txCen then { settled decmd crci s i with txAct := true, state := .startSync }
      else { settled decmd crci s i with txAct := true } := by
  have habrt' : (s.txIn decmd crci i).txAbrt = false := habrt
  rw [fsm_next]
  unfold DupTx.Fsm.step
  rw [habrt', hstate, Bool.and_false]
  rfl

end

/-- The empty shift register stays empty for the clock. -/
theorem usrt_next (h : s.empty = true) : (s.next decmd crci i).tx.usrt.state = .idle := by
  unfold empty at h
  rw [Bool.and_eq_true_iff, beq_iff_eq, Bool.not_eq_true'] at h
  obtain ⟨hidle, hload⟩ := h
  have hload' : (s.tx.usrtIn (s.txIn decmd crci i)).load = false := hload
  have hclr : (s.tx.usrtIn (s.txIn decmd crci i)).rst ||
      (s.tx.usrtIn (s.txIn decmd crci i)).clr = false := rfl
  show (s.tx.usrt.next _).state = .idle
  unfold UsrtTx.next UsrtTx.step
  rw [hidle, hload']
  exact hidle

end DupSend

end KS10
