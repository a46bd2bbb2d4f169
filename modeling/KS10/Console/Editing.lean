import KS10.Console.LineEditor
import KS10.Console.Recalls

/-!
# The console edits the line of the abstract editor

Every operation keeps the buffer, the length and the cursor as the abstract editor has them
(`Cmdline.Shows`), with one exception: the transposition does not check that there is a
character on each side of the cursor.
-/

namespace KS10

open Clocked

/-! ## Lines in a buffer -/

/-- The buffer begins with the line. -/
def Begins (buf : Nat → BitVec 8) (text : List (BitVec 8)) : Prop :=
  ∀ k, k < text.length → text[k]? = some (buf k)

namespace Begins

variable {buf buf' : Nat → BitVec 8} {before after line : List (BitVec 8)} {ch : BitVec 8}

theorem congr (h : Begins buf line) (heq : ∀ k, k < line.length → buf' k = buf k) :
    Begins buf' line := by
  intro k hk
  rw [heq k hk]
  exact h k hk

theorem left (h : Begins buf (before ++ after)) : Begins buf before := by
  intro k hk
  have hat := h k (by rw [List.length_append]; omega)
  rwa [List.getElem?_append_left hk] at hat

/-- A character comes into the line, and the ones behind it move up. -/
theorem insert (h : Begins buf (before ++ after)) (hleft : ∀ k, k < before.length → buf' k = buf k)
    (hat : buf' before.length = ch)
    (hright : ∀ k, before.length < k → k ≤ (before ++ after).length → buf' k = buf (k - 1)) :
    Begins buf' (before ++ ch :: after) := by
  intro k hk
  rw [List.length_append, List.length_cons] at hk
  rw [List.length_append] at hright
  rcases Nat.lt_trichotomy k before.length with hlt | heq | hgt
  · rw [List.getElem?_append_left hlt, hleft k hlt]
    exact h.left k hlt
  · rw [heq, hat, List.getElem?_append_right (Nat.le_refl _), Nat.sub_self]
    rfl
  · have hold := h (k - 1) (by rw [List.length_append]; omega)
    rw [List.getElem?_append_right (by omega)] at hold
    have hsucc : k - before.length = k - 1 - before.length + 1 := by omega
    rw [hright k hgt (by omega), List.getElem?_append_right (Nat.le_of_lt hgt), hsucc,
      List.getElem?_cons_succ]
    exact hold

/-- A character leaves the line, and the ones behind it move down. -/
theorem remove (h : Begins buf (before ++ ch :: after))
    (hleft : ∀ k, k < before.length → buf' k = buf k)
    (hright : ∀ k, before.length ≤ k → k < (before ++ after).length → buf' k = buf (k + 1)) :
    Begins buf' (before ++ after) := by
  intro k hk
  rcases Nat.lt_or_ge k before.length with hlt | hge
  · rw [List.getElem?_append_left hlt, hleft k hlt]
    exact h.left k hlt
  · have hold := h (k + 1) (by rw [List.length_append] at *; rw [List.length_cons]; omega)
    rw [List.getElem?_append_right (by omega), Nat.sub_add_comm hge,
      List.getElem?_cons_succ] at hold
    rw [hright k hge hk, List.getElem?_append_right hge]
    exact hold

/-- Two characters of the line change places. -/
theorem swap {first second : BitVec 8} (h : Begins buf (before ++ first :: second :: after))
    (hfirst : buf' before.length = second) (hsecond : buf' (before.length + 1) = first)
    (hrest : ∀ k, k ≠ before.length → k ≠ before.length + 1 → buf' k = buf k) :
    Begins buf' (before ++ second :: first :: after) := by
  intro k hk
  rw [List.length_append, List.length_cons, List.length_cons] at hk
  have hold := h k (by rw [List.length_append, List.length_cons, List.length_cons]; omega)
  rcases Nat.lt_or_ge k before.length with hlt | hge
  · rw [hrest k (by omega) (by omega), List.getElem?_append_left hlt]
    exact h.left k hlt
  · obtain ⟨j, rfl⟩ := Nat.exists_eq_add_of_le hge
    rw [List.getElem?_append_right hge, Nat.add_sub_cancel_left] at hold ⊢
    match j with
    | 0 => rw [Nat.add_zero, hfirst]; rfl
    | 1 => rw [hsecond]; rfl
    | j + 2 =>
        rw [hrest _ (by omega) (by omega)]
        exact hold

/-- The line is what the buffer begins with. -/
theorem eq_map (h : Begins buf line) : (List.range line.length).map buf = line := by
  refine List.ext_getElem? fun k => ?_
  rcases Nat.lt_or_ge k line.length with hlt | hge
  · rw [h k hlt, List.getElem?_map, List.getElem?_range hlt]
    rfl
  · rw [List.getElem?_eq_none_iff.mpr hge, List.getElem?_eq_none_iff.mpr]
    rw [List.length_map, List.length_range]
    exact hge

end Begins

/-! ## The operations -/

namespace Cmdline

/-- The buffer, the length and the cursor are those of the abstract editor.  The last byte of
the buffer is the end of any string in it. -/
structure Shows (s : Cmdline) (e : Editor) : Prop where
  curpos : s.curpos.toNat = e.before.length
  cmdlen : s.cmdlen = e.line.length
  most : e.line.length ≤ Editor.most
  begins : Begins s.cmdline e.line
  last : s.cmdline Editor.most = 0

/-- An operation on the line leaves the rest as it is. -/
structure Keeps (s s' : Cmdline) : Prop where
  state : s'.state = s.state
  hist : s'.hist = s.hist
  executed : s'.executed = s.executed

variable {s : Cmdline} {e : Editor} {ch : BitVec 8}

theorem sub_eq {a b : Nat} (hle : b ≤ a) (hlt : a ≤ Editor.most) : Hist.sub a b = a - b :=
  Hist.sub_eq hle (Nat.lt_of_le_of_lt hlt (by decide))

theorem Shows.le (h : Shows s e) : s.curpos.toNat ≤ s.cmdlen := by
  rw [h.curpos, h.cmdlen]
  unfold Editor.line
  rw [List.length_append]
  omega

theorem Shows.length (h : Shows s e) : s.cmdlen ≤ Editor.most := by
  rw [h.cmdlen]
  exact h.most

/-- The loop prints what is left of the line and changes only the cursor. -/
theorem print_eq (n : Nat) {fuel : Nat} {i : BitVec 8} (hn : i.toNat + n = s.cmdlen)
    (hlen : s.cmdlen ≤ Editor.most) (hfuel : n < fuel) :
    ∃ pos, print fuel i s = some { s with curpos := pos } := by
  induction n generalizing fuel i s with
  | zero =>
      obtain ⟨fuel, rfl⟩ := Nat.exists_eq_succ_of_ne_zero (Nat.ne_of_gt hfuel)
      exact ⟨s.curpos, if_neg (by omega)⟩
  | succ n ih =>
      obtain ⟨fuel, rfl⟩ := Nat.exists_eq_succ_of_ne_zero (Nat.ne_of_gt (Nat.zero_lt_of_lt hfuel))
      have hlt : i.toNat < s.cmdlen := by omega
      have hget : s.get i.toNat = some (s.cmdline i.toNat) :=
        if_pos (Nat.lt_of_lt_of_le hlt (Nat.le_succ_of_le hlen))
      have hput : ∃ pos, s.putchar (s.cmdline i.toNat) = { s with curpos := pos } := by
        unfold putchar
        split
        · exact ⟨s.curpos, rfl⟩
        · exact ⟨_, rfl⟩
        · exact ⟨_, rfl⟩
        · exact ⟨_, rfl⟩
      have hsum : (i + 1).toNat = i.toNat + 1 := by
        have hmod : (i + 1).toNat = (i.toNat + 1) % 256 := BitVec.toNat_add _ _
        unfold Editor.most at hlen
        rw [hmod, Nat.mod_eq_of_lt (by omega)]
      obtain ⟨pos, hpos⟩ := hput
      obtain ⟨pos', hprint⟩ := ih (s := { s with curpos := pos }) (i := i + 1)
        (by rw [hsum]; show _ = s.cmdlen; omega) hlen (Nat.lt_of_succ_lt_succ hfuel)
      refine ⟨pos', ?_⟩
      unfold print
      rw [if_pos hlt, hget]
      show print fuel (i + 1) (s.putchar (s.cmdline i.toNat)) = _
      rw [hpos]
      exact hprint

/-- An update prints the line and leaves the cursor where it is. -/
theorem update_eq (hpos : s.curpos.toNat ≤ s.cmdlen) (hlen : s.cmdlen ≤ Editor.most) :
    s.update = some { s with cursav := s.curpos } := by
  unfold Editor.most at hlen
  obtain ⟨pos, hprint⟩ : ∃ pos, print 256 s.curpos s.save = some { s.save with curpos := pos } :=
    print_eq (s.cmdlen - s.curpos.toNat) (Nat.add_sub_cancel' hpos) hlen (by omega)
  unfold update
  rw [hprint]
  rfl

theorem Shows.update (h : Shows s e) : ∃ s', s.update = some s' ∧ Shows s' e ∧ Keeps s s' :=
  ⟨_, update_eq h.le h.length, ⟨h.curpos, h.cmdlen, h.most, h.begins, h.last⟩, ⟨rfl, rfl, rfl⟩⟩

theorem succ_toNat {b : BitVec 8} (h : b.toNat < Editor.most) : (b + 1).toNat = b.toNat + 1 := by
  have hmod : (b + 1).toNat = (b.toNat + 1) % 256 := BitVec.toNat_add _ _
  unfold Editor.most at h
  rw [hmod, Nat.mod_eq_of_lt (by omega)]

theorem pred_toNat {b : BitVec 8} (h : 0 < b.toNat) : (b - 1).toNat = b.toNat - 1 :=
  BitVec.toNat_sub_of_le h

theorem toNat_ofNat {n : Nat} (h : n ≤ Editor.most) : (BitVec.ofNat 8 n).toNat = n := by
  unfold Editor.most at h
  rw [BitVec.toNat_ofNat, Nat.mod_eq_of_lt (by omega)]

theorem putchar_eq (h : isprint ch = true) : s.putchar ch = { s with curpos := s.curpos + 1 } := by
  unfold isprint at h
  simp only [Bool.and_eq_true, decide_eq_true_eq, BitVec.le_def] at h
  unfold putchar
  split
  · next heq => rw [heq] at h; exact absurd h.1 (by decide)
  · next heq => rw [heq] at h; exact absurd h.1 (by decide)
  · next heq => rw [heq] at h; exact absurd h.1 (by decide)
  · rfl

/-- An operation ends with an update. -/
theorem Shows.updated {s₁ : Cmdline} (h : Shows s₁ e) (hkeeps : Keeps s s₁) :
    ∃ s', s₁.update = some s' ∧ Shows s' e ∧ Keeps s s' := by
  obtain ⟨s', hupdate, hshows, hsame⟩ := h.update
  exact ⟨s', hupdate, hshows, hsame.state.trans hkeeps.state, hsame.hist.trans hkeeps.hist,
    hsame.executed.trans hkeeps.executed⟩

theorem memmove_eq (dst src n : Nat) (hdst : dst + n ≤ size) (hsrc : src + n ≤ size) :
    s.memmove dst src n = some
      { s with
        cmdline := fun k =>
          if dst ≤ k ∧ k < dst + n then s.cmdline (k - dst + src) else s.cmdline k } :=
  if_pos (.inr ⟨hdst, hsrc⟩)

theorem set_eq {k : Nat} (hk : k < size) :
    s.set k ch = some { s with cmdline := Function.update s.cmdline k ch } :=
  if_pos hk

/-- A character is put into a line that has room. -/
theorem inschar_eq (hroom : s.cmdlen < Editor.most) (hle : s.curpos.toNat ≤ s.cmdlen)
    (hch : isprint ch = true) : s.inschar ch =
      Cmdline.update
        { s with
          curpos := s.curpos + 1
          cmdlen := s.cmdlen + 1
          cmdline := Function.update
            (fun k =>
              if s.curpos.toNat + 1 ≤ k ∧
                  k < s.curpos.toNat + 1 + (s.cmdlen - s.curpos.toNat) then
                s.cmdline (k - (s.curpos.toNat + 1) + s.curpos.toNat)
              else s.cmdline k)
            s.curpos.toNat ch } := by
  have hsub : Hist.sub s.cmdlen s.curpos.toNat = s.cmdlen - s.curpos.toNat :=
    sub_eq hle (Nat.le_of_lt hroom)
  unfold Editor.most at hroom
  have hmove := memmove_eq (s := s) (s.curpos.toNat + 1) s.curpos.toNat
    (s.cmdlen - s.curpos.toNat) (by unfold size; omega) (by unfold size; omega)
  have hin : s.curpos.toNat < size := by unfold size; omega
  unfold inschar
  dsimp only
  rw [if_pos (show s.cmdlen < size - 1 from hroom), hsub, hmove]
  show (Cmdline.set _ _ ch).bind _ = _
  rw [set_eq hin]
  show ite _ (Cmdline.update _) _ = _
  rw [if_pos, putchar_eq hch]
  rw [putchar_eq hch]
  show s.curpos.toNat ≠ s.cmdlen + 1
  omega

theorem Shows.inschar (h : Shows s e) (hch : isprint ch = true) :
    ∃ s', s.inschar ch = some s' ∧ Shows s' (e.insert ch) ∧ Keeps s s' := by
  have hle := h.le
  have hcur := h.curpos
  have hlen := h.cmdlen
  have hbegins := h.begins
  have hlast := h.last
  unfold Editor.insert
  by_cases hroom : e.line.length < Editor.most
  · have hmore : (Editor.mk (e.before ++ [ch]) e.after).line = e.before ++ ch :: e.after := by
      unfold Editor.line
      rw [List.append_assoc]
      rfl
    have hlength : (e.before ++ ch :: e.after).length = e.line.length + 1 := by
      unfold Editor.line
      rw [List.length_append, List.length_append, List.length_cons]
      omega
    rw [inschar_eq (by omega) hle hch, if_pos hroom]
    refine Shows.updated ⟨?_, ?_, ?_, ?_, ?_⟩ ⟨rfl, rfl, rfl⟩
    · rw [succ_toNat (by omega), hcur, List.length_append]
      rfl
    · rw [hmore, hlength, ← hlen]
    · rw [hmore, hlength]
      exact hroom
    · rw [hmore]
      refine Begins.insert hbegins (fun k hk => ?_) ?_ fun k hk hkn => ?_
      · dsimp only
        rw [Function.update_of_ne (by omega), if_neg (by omega)]
      · dsimp only
        rw [hcur, Function.update_self]
      · have hsum : k - (s.curpos.toNat + 1) + s.curpos.toNat = k - 1 := by omega
        have hkn' : k ≤ e.line.length := hkn
        dsimp only
        rw [Function.update_of_ne (by omega), if_pos (by omega), hsum]
    · have hne : Editor.most ≠ s.curpos.toNat := by omega
      dsimp only
      rw [Function.update_of_ne hne, if_neg (by omega)]
      exact hlast
  · have hfull : ¬ s.cmdlen < size - 1 := by
      rw [hlen]
      exact hroom
    unfold Cmdline.inschar
    rw [if_neg hfull, if_neg hroom]
    exact ⟨s, rfl, h, rfl, rfl, rfl⟩

/-- The buffer without the character at `pos` of a line of `n` characters. -/
def removed (buf : Nat → BitVec 8) (pos n : Nat) (k : Nat) : BitVec 8 :=
  if k = n - 1 then 0 else if pos ≤ k ∧ k < n - 1 then buf (k + 1) else buf k

theorem removed_last {buf : Nat → BitVec 8} {pos n k : Nat} (hn : 0 < n) (hk : n ≤ k) :
    removed buf pos n k = buf k := by
  unfold removed
  rw [if_neg (by omega), if_neg (by omega)]

theorem begins_removed {buf : Nat → BitVec 8} {before after : List (BitVec 8)}
    (h : Begins buf (before ++ ch :: after)) :
    Begins (removed buf before.length (before ++ ch :: after).length) (before ++ after) := by
  have hlength : (before ++ ch :: after).length = (before ++ after).length + 1 := by
    rw [List.length_append, List.length_append, List.length_cons]
    omega
  rw [hlength]
  unfold removed
  refine h.remove (fun k hk => ?_) fun k hk hkn => ?_
  · rw [List.length_append]
    rw [if_neg (by omega), if_neg (by omega)]
  · rw [if_neg (by omega), if_pos (by omega)]

/-- The move of the characters down and the mark at the end. -/
theorem update_eq_removed (buf : Nat → BitVec 8) (pos n : Nat) {m : Nat} (hge : n - 1 ≤ pos + m)
    (hle : pos + m ≤ n) :
    Function.update (fun k => if pos ≤ k ∧ k < pos + m then buf (k - pos + (pos + 1)) else buf k)
      (n - 1) 0 = removed buf pos n := by
  funext k
  unfold removed
  by_cases hk : k = n - 1
  · rw [if_pos hk, hk, Function.update_self]
  · rw [if_neg hk, Function.update_of_ne hk]
    by_cases hmid : pos ≤ k ∧ k < n - 1
    · have hsum : k - pos + (pos + 1) = k + 1 := by omega
      rw [if_pos (by omega), if_pos hmid, hsum]
    · rw [if_neg (by omega), if_neg hmid]

theorem shorten_eq (buf : Nat → BitVec 8) (hpos : 0 < s.cmdlen) (hlen : s.cmdlen ≤ Editor.most) :
    shorten { s with cmdline := buf } = some
      { s with
        cmdlen := s.cmdlen - 1
        cmdline := Function.update buf (s.cmdlen - 1) 0 } := by
  have hdec : Hist.sub s.cmdlen 1 = s.cmdlen - 1 := sub_eq hpos hlen
  unfold Editor.most at hlen
  unfold shorten
  dsimp only
  rw [hdec]
  exact set_eq (by unfold size; omega)

theorem delchar_eq (hlt : s.curpos.toNat < s.cmdlen) (hlen : s.cmdlen ≤ Editor.most) :
    s.delchar =
      Cmdline.update
        { s with
          cmdlen := s.cmdlen - 1
          cmdline := removed s.cmdline s.curpos.toNat s.cmdlen } := by
  have hsub : Hist.sub s.cmdlen s.curpos.toNat = s.cmdlen - s.curpos.toNat :=
    sub_eq (Nat.le_of_lt hlt) hlen
  have hpred : Hist.sub (s.cmdlen - s.curpos.toNat) 1 = s.cmdlen - s.curpos.toNat - 1 :=
    sub_eq (by omega) (by omega)
  unfold Editor.most at hlen
  have hmove := memmove_eq (s := s) s.curpos.toNat (s.curpos.toNat + 1)
    (s.cmdlen - s.curpos.toNat - 1) (by unfold size; omega) (by unfold size; omega)
  have hbuf := update_eq_removed s.cmdline s.curpos.toNat s.cmdlen
    (m := s.cmdlen - s.curpos.toNat - 1) (by omega) (by omega)
  unfold delchar
  dsimp only
  rw [if_pos (Nat.ne_of_lt hlt), hsub, hpred, hmove, Option.bind_eq_bind, Option.bind_some,
    shorten_eq _ (Nat.zero_lt_of_lt hlt) hlen, Option.bind_some, hbuf]

theorem Shows.delchar (h : Shows s e) :
    ∃ s', s.delchar = some s' ∧ Shows s' e.delete ∧ Keeps s s' := by
  have hcur := h.curpos
  have hlen := h.cmdlen
  have hbegins := h.begins
  have hmost := h.most
  obtain ⟨before, after⟩ := e
  cases after with
  | nil =>
      have hend : s.curpos.toNat = s.cmdlen := by
        rw [hcur, hlen]
        unfold Editor.line
        rw [List.append_nil]
      unfold Cmdline.delchar
      dsimp only
      rw [if_neg fun hne => hne hend]
      exact ⟨s, rfl, h, rfl, rfl, rfl⟩
  | cons c after =>
      have hlength : (before ++ c :: after).length = (before ++ after).length + 1 := by
        rw [List.length_append, List.length_append, List.length_cons]
        omega
      have hline : s.cmdlen = (before ++ c :: after).length := hlen
      have hle : (before ++ c :: after).length ≤ Editor.most := hmost
      have hlt : s.curpos.toNat < s.cmdlen := by
        rw [hcur, hline, List.length_append, List.length_cons]
        show before.length < _
        omega
      rw [delchar_eq hlt (by omega)]
      refine Shows.updated ⟨hcur, ?_, ?_, ?_, ?_⟩ ⟨rfl, rfl, rfl⟩
      · show s.cmdlen - 1 = (before ++ after).length
        omega
      · show (before ++ after).length ≤ _
        omega
      · show Begins (removed s.cmdline _ _) (before ++ after)
        rw [hcur, hline]
        exact begins_removed hbegins
      · exact (removed_last (by omega) (by omega)).trans h.last

theorem backspace_eq {pos : Nat} (hpos : s.curpos.toNat = pos + 1)
    (hle : s.curpos.toNat ≤ s.cmdlen) (hlen : s.cmdlen ≤ Editor.most) :
    s.backspace =
      Cmdline.update
        { s with
          curpos := s.curpos - 1
          cmdlen := s.cmdlen - 1
          cmdline := removed s.cmdline pos s.cmdlen } := by
  have hsub : Hist.sub s.cmdlen s.curpos.toNat = s.cmdlen - s.curpos.toNat := sub_eq hle hlen
  rw [hpos] at hsub hle
  unfold Editor.most at hlen
  have hmove := memmove_eq (s := s) pos (pos + 1) (s.cmdlen - (pos + 1) + 1)
    (by unfold size; omega) (by unfold size; omega)
  have hbuf := update_eq_removed s.cmdline pos s.cmdlen
    (m := s.cmdlen - (pos + 1) + 1) (by omega) (by omega)
  unfold backspace
  dsimp only
  rw [hpos, if_pos (Nat.succ_pos pos), Nat.add_sub_cancel, hsub, hmove, Option.bind_eq_bind,
    Option.bind_some, shorten_eq _ (by omega) hlen, Option.bind_some, hbuf]
  rfl

theorem Shows.backspace (h : Shows s e) :
    ∃ s', s.backspace = some s' ∧ Shows s' e.backspace ∧ Keeps s s' := by
  have hle := h.le
  have hcur := h.curpos
  have hlen := h.cmdlen
  have hbegins := h.begins
  have hmost := h.most
  obtain ⟨before, after⟩ := e
  rcases List.eq_nil_or_concat before with rfl | ⟨before, c, hbefore⟩
  · have hzero : s.curpos.toNat = 0 := hcur
    unfold Cmdline.backspace
    dsimp only
    rw [if_neg (by omega)]
    exact ⟨s, rfl, h, rfl, rfl, rfl⟩
  · rw [List.concat_eq_append] at hbefore
    subst hbefore
    have hpos : s.curpos.toNat = before.length + 1 := by
      rw [hcur]
      show (before ++ [c]).length = _
      rw [List.length_append]
      rfl
    have hline : (before ++ [c]) ++ after = before ++ c :: after := by
      rw [List.append_assoc]
      rfl
    have hback : (Editor.mk (before ++ [c]) after).backspace = ⟨before, after⟩ := by
      unfold Editor.backspace
      rw [List.dropLast_concat]
    have hlength : (before ++ c :: after).length = (before ++ after).length + 1 := by
      rw [List.length_append, List.length_append, List.length_cons]
      omega
    unfold Editor.line at hlen hbegins hmost
    dsimp only at hlen hbegins hmost
    rw [hline] at hlen hbegins hmost
    rw [hback, backspace_eq hpos hle (by omega)]
    refine Shows.updated ⟨?_, ?_, ?_, ?_, ?_⟩ ⟨rfl, rfl, rfl⟩
    · show (s.curpos - 1).toNat = before.length
      rw [pred_toNat (by omega), hpos, Nat.add_sub_cancel]
    · show s.cmdlen - 1 = (before ++ after).length
      omega
    · show (before ++ after).length ≤ _
      omega
    · show Begins (removed s.cmdline _ _) (before ++ after)
      rw [hlen]
      exact begins_removed hbegins
    · exact (removed_last (by omega) (by omega)).trans h.last

/-! ## The transposition -/

/-- The buffer with the character at `pos` and the one before it in each other's place. -/
def swapped (buf : Nat → BitVec 8) (pos : Nat) : Nat → BitVec 8 :=
  Function.update (Function.update buf pos (buf (pos - 1))) (pos - 1) (buf pos)

/-- At the beginning of the line there is no character before the cursor. -/
theorem transpose_none (hpos : s.curpos.toNat = 0) : s.transpose = none := by
  have hget : s.get 0 = some (s.cmdline 0) := rfl
  have hout : s.get (Hist.sub 0 1) = none := if_neg (by decide)
  unfold transpose
  dsimp only
  rw [hpos, hget, hout]
  rfl

theorem transpose_eq (hpos : 0 < s.curpos.toNat) (hle : s.curpos.toNat ≤ s.cmdlen)
    (hlen : s.cmdlen ≤ Editor.most) : s.transpose = some
      { s with cursav := s.curpos - 1, cmdline := swapped s.cmdline s.curpos.toNat } := by
  have hpred : Hist.sub s.curpos.toNat 1 = s.curpos.toNat - 1 := sub_eq hpos (Nat.le_trans hle hlen)
  unfold Editor.most at hlen
  have hin : s.curpos.toNat < size := by unfold size; omega
  have hin' : s.curpos.toNat - 1 < size := by unfold size; omega
  have hget : s.get s.curpos.toNat = some (s.cmdline s.curpos.toNat) := if_pos hin
  have hget' : s.get (s.curpos.toNat - 1) = some (s.cmdline (s.curpos.toNat - 1)) := if_pos hin'
  have hset : ∀ buf k ch, k < size → set { s with cmdline := buf } k ch =
      some { s with cmdline := Function.update buf k ch } := fun buf k ch hk => set_eq hk
  have hupdate : ∀ buf, update (back { s with cmdline := buf } 1) =
      some { s with curpos := s.curpos - 1, cursav := s.curpos - 1, cmdline := buf } := by
    intro buf
    refine update_eq ?_ hlen
    show (s.curpos - 1).toNat ≤ s.cmdlen
    rw [pred_toNat hpos]
    omega
  unfold transpose
  dsimp only
  rw [hpred, hget, Option.bind_eq_bind, Option.bind_some, hget', Option.bind_some, set_eq hin,
    Option.bind_eq_bind, Option.bind_some, hset _ _ _ hin', Option.bind_some, hupdate,
    Option.bind_some]
  unfold fwd swapped
  rw [BitVec.sub_add_cancel]

/-- There is a character on each side of the cursor. -/
theorem Shows.transpose (h : Shows s e) (hbefore : e.before ≠ []) (hafter : e.after ≠ []) :
    ∃ s', s.transpose = some s' ∧ Shows s' e.transpose ∧ Keeps s s' := by
  have hle := h.le
  have hmostlen := h.length
  obtain ⟨before, after⟩ := e
  obtain ⟨second, rest, rfl⟩ := List.exists_cons_of_ne_nil hafter
  obtain ⟨front, first, hfront⟩ := (List.eq_nil_or_concat before).resolve_left hbefore
  rw [List.concat_eq_append] at hfront
  subst hfront
  have hcur : s.curpos.toNat = front.length + 1 := by
    rw [h.curpos, List.length_append]
    rfl
  have hline : (front ++ [first]) ++ second :: rest = front ++ first :: second :: rest := by
    rw [List.append_assoc]
    rfl
  have hnew : (Editor.mk (front ++ [first]) (second :: rest)).transpose =
      ⟨front ++ [second], first :: rest⟩ := by
    unfold Editor.transpose
    rw [List.getLast?_concat, List.dropLast_concat]
  have hline' : (front ++ [second]) ++ first :: rest = front ++ second :: first :: rest := by
    rw [List.append_assoc]
    rfl
  have hbegins : Begins s.cmdline (front ++ first :: second :: rest) := hline ▸ h.begins
  have hat : s.cmdline front.length = first ∧ s.cmdline (front.length + 1) = second := by
    have h₁ := hbegins front.length (by rw [List.length_append, List.length_cons]; omega)
    have h₂ := hbegins (front.length + 1)
      (by rw [List.length_append, List.length_cons, List.length_cons]; omega)
    rw [List.getElem?_append_right (Nat.le_refl _), Nat.sub_self] at h₁
    rw [List.getElem?_append_right (Nat.le_add_right _ 1), Nat.add_sub_cancel_left] at h₂
    exact ⟨(Option.some.inj h₁).symm, (Option.some.inj h₂).symm⟩
  have hlen : s.cmdlen = (front ++ first :: second :: rest).length := by
    rw [← hline]
    exact h.cmdlen
  have hlength : (front ++ second :: first :: rest).length =
      (front ++ first :: second :: rest).length := by
    rw [List.length_append, List.length_append]
    rfl
  have hlast : Editor.most ≠ front.length + 1 ∧ Editor.most ≠ front.length := by
    rw [hlen, List.length_append, List.length_cons, List.length_cons] at hmostlen
    omega
  rw [transpose_eq (by omega) hle hmostlen, hnew]
  refine ⟨_, rfl, ⟨?_, ?_, ?_, ?_, ?_⟩, rfl, rfl, rfl⟩
  · rw [List.length_append]
    exact hcur
  · show s.cmdlen = ((front ++ [second]) ++ first :: rest).length
    rw [hline', hlength, hlen]
  · show ((front ++ [second]) ++ first :: rest).length ≤ _
    rw [hline', hlength, ← hlen]
    exact hmostlen
  · show Begins (swapped s.cmdline s.curpos.toNat) ((front ++ [second]) ++ first :: rest)
    unfold swapped
    rw [hline', hcur, Nat.add_sub_cancel]
    refine hbegins.swap ?_ ?_ fun k hk hk' => ?_
    · rw [Function.update_self, hat.2]
    · rw [Function.update_of_ne (Nat.succ_ne_self _), Function.update_self, hat.1]
    · rw [Function.update_of_ne hk, Function.update_of_ne hk']
  · show swapped s.cmdline s.curpos.toNat Editor.most = 0
    unfold swapped
    rw [hcur, Nat.add_sub_cancel, Function.update_of_ne hlast.2, Function.update_of_ne hlast.1]
    exact h.last

/-- The byte behind the line is the same as the last character of it. -/
theorem Shows.transpose_end (h : Shows s e) (hbefore : e.before ≠ []) (hafter : e.after = [])
    (hsame : e.before.getLast? = some (s.cmdline s.cmdlen)) :
    ∃ s', s.transpose = some s' ∧ Shows s' e ∧ Keeps s s' := by
  have hle := h.le
  have hpos : 0 < s.curpos.toNat := by
    rw [h.curpos]
    exact List.length_pos_iff.mpr hbefore
  have hend : s.curpos.toNat = s.cmdlen := by
    rw [h.curpos, h.cmdlen]
    unfold Editor.line
    rw [hafter, List.append_nil]
  have hline : e.line = e.before := by
    unfold Editor.line
    rw [hafter, List.append_nil]
  have hlast : s.cmdline (s.curpos.toNat - 1) = s.cmdline s.curpos.toNat := by
    have hat := h.begins (s.curpos.toNat - 1) (by rw [← h.cmdlen]; omega)
    rw [hline, h.curpos, ← List.getLast?_eq_getElem?, hsame, ← hend, h.curpos] at hat
    rw [h.curpos]
    exact (Option.some.inj hat).symm
  have hbuf : swapped s.cmdline s.curpos.toNat = s.cmdline := by
    unfold swapped
    rw [hlast, Function.update_eq_self, ← hlast, Function.update_eq_self]
  rw [transpose_eq hpos hle h.length, hbuf]
  exact ⟨_, rfl, ⟨h.curpos, h.cmdlen, h.most, h.begins, h.last⟩, rfl, rfl, rfl⟩

/-! ## The cursor -/

/-- The cursor moves within the line. -/
theorem Shows.moved {e' : Editor} {pos : BitVec 8} (h : Shows s e) (hline : e'.line = e.line)
    (hpos : pos.toNat = e'.before.length) : Shows { s with curpos := pos } e' where
  curpos := hpos
  cmdlen := by rw [hline]; exact h.cmdlen
  most := by rw [hline]; exact h.most
  begins := by rw [hline]; exact h.begins
  last := h.last

theorem Shows.home (h : Shows s e) : Shows (s.move 0) e.home := h.moved rfl rfl

theorem line_toEnd (e : Editor) : e.toEnd.line = e.line := List.append_nil _

theorem Shows.toEnd (h : Shows s e) : Shows (s.move (BitVec.ofNat 8 s.cmdlen)) e.toEnd :=
  h.moved (line_toEnd e) ((toNat_ofNat h.length).trans h.cmdlen)

theorem Shows.back (h : Shows s e) :
    Shows (if s.curpos.toNat > 0 then s.back 1 else s) e.back := by
  have hcur := h.curpos
  obtain ⟨before, after⟩ := e
  unfold Editor.back
  rcases List.eq_nil_or_concat before with rfl | ⟨front, c, hfront⟩
  · have hzero : s.curpos.toNat = 0 := hcur
    rw [if_neg (by omega)]
    exact h
  · rw [List.concat_eq_append] at hfront
    subst hfront
    have hpos : s.curpos.toNat = front.length + 1 := by
      rw [hcur, List.length_append]
      rfl
    dsimp only
    rw [if_pos (by omega), List.getLast?_concat, List.dropLast_concat]
    refine h.moved ?_ ?_
    · unfold Editor.line
      rw [List.append_assoc]
      rfl
    · rw [pred_toNat (by omega), hpos, Nat.add_sub_cancel]

theorem Shows.fwd (h : Shows s e) :
    Shows (if s.curpos.toNat < s.cmdlen then s.fwd 1 else s) e.fwd := by
  have hcur := h.curpos
  have hlen := h.cmdlen
  have hmost := h.length
  obtain ⟨before, after⟩ := e
  unfold Editor.line at hlen
  rw [List.length_append] at hlen
  unfold Editor.fwd
  cases after with
  | nil =>
      rw [List.length_nil] at hlen
      rw [if_neg (by omega)]
      exact h
  | cons c after =>
      rw [List.length_cons] at hlen
      rw [if_pos (by omega)]
      refine h.moved ?_ ?_
      · unfold Editor.line
        rw [List.append_assoc]
        rfl
      · rw [succ_toNat (by omega), List.length_append]
        exact congrArg (· + 1) hcur

/-- The line becomes shorter at its end. -/
theorem Shows.kill (h : Shows s e) : Shows { s with cmdlen := s.curpos.toNat } e.kill where
  curpos := h.curpos
  cmdlen := by
    unfold Editor.kill Editor.line
    rw [List.append_nil]
    exact h.curpos
  most := by
    have hmost := h.most
    unfold Editor.line at hmost
    unfold Editor.kill Editor.line
    rw [List.length_append] at hmost
    rw [List.append_nil]
    exact Nat.le_trans (Nat.le_add_right _ _) hmost
  begins := by
    unfold Editor.kill Editor.line
    rw [List.append_nil]
    exact Begins.left h.begins
  last := h.last

theorem Shows.clear (h : Shows s e) : Shows { s.move 0 with cmdlen := 0 } .empty where
  curpos := rfl
  cmdlen := rfl
  most := Nat.zero_le _
  begins := fun k hk => absurd hk (Nat.not_lt_zero k)
  last := h.last

theorem Shows.redraw (h : Shows s e) : ∃ s',
    ((s.move 0).update.map fun s => s.fwd (BitVec.ofNat 8 s.cmdlen)) = some s' ∧
      Shows s' e.toEnd ∧ Keeps s s' := by
  have hlen := h.length
  have hupdate : (s.move 0).update = some { s.move 0 with cursav := 0 } :=
    update_eq (Nat.zero_le _) hlen
  rw [hupdate]
  refine ⟨_, rfl, ⟨?_, ?_, ?_, ?_, h.last⟩, rfl, rfl, rfl⟩
  · show (0#8 + BitVec.ofNat 8 s.cmdlen).toNat = e.line.length
    rw [BitVec.zero_add, toNat_ofNat hlen, h.cmdlen]
  · rw [line_toEnd]
    exact h.cmdlen
  · rw [line_toEnd]
    exact h.most
  · rw [line_toEnd]
    exact h.begins

end Cmdline

end KS10
