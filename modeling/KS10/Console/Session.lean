import KS10.Console.Editing

/-!
# The console keeps the session of the abstract editor

The lines that the executor gets, the cursor and the history are those of the abstract editor,
as long as every transposition finds a character on each side of the cursor or happens to change
nothing (`Cmdline.edits_iff`).
-/

namespace KS10

open Clocked

namespace Cmdline

variable {s : Cmdline} {e : Editor} {ch : BitVec 8}

/-! ## Recalls -/

/-- The characters are stored in a part of the buffer. -/
theorem put_eq (chars : List (BitVec 8)) {k : Nat} (hroom : k + chars.length ≤ size) :
    ∃ buf, s.put chars k = some { s with cmdline := buf } ∧
      (∀ j, j < k ∨ k + chars.length ≤ j → buf j = s.cmdline j) ∧
      ∀ j, j < chars.length → chars[j]? = some (buf (k + j)) := by
  induction chars generalizing s k with
  | nil => exact ⟨s.cmdline, rfl, fun _ _ => rfl, fun j hj => absurd hj (Nat.not_lt_zero j)⟩
  | cons c chars ih =>
      rw [List.length_cons] at hroom
      obtain ⟨buf, hput, hrest, hchars⟩ :=
        ih (s := { s with cmdline := Function.update s.cmdline k c }) (k := k + 1) (by omega)
      refine ⟨buf, ?_, fun j hj => ?_, fun j hj => ?_⟩
      · unfold put
        rw [set_eq (by omega), Option.bind_eq_bind, Option.bind_some]
        exact hput
      · rw [List.length_cons] at hj
        rw [hrest j (by omega)]
        exact Function.update_of_ne (by omega) _ _
      · cases j with
        | zero =>
            rw [Nat.add_zero, hrest k (.inl (Nat.lt_succ_self k))]
            show some c = some (Function.update s.cmdline k c k)
            rw [Function.update_self]
        | succ j =>
            have hat := hchars j (Nat.lt_of_succ_lt_succ hj)
            rw [Nat.add_assoc, Nat.add_comm 1 j] at hat
            exact hat

/-- The recall of a line puts it into the buffer, with the cursor at its end. -/
theorem Shows.getHist {hist : Hist} {dir : Hist.Dir} {line : List (BitVec 8)} (h : Shows s e)
    (hrecall : s.hist.recallLine dir = some (Past.recalled line, hist))
    (hline : line.length ≤ Editor.most) : ∃ s', s.getHist dir = some s' ∧ Shows s' ⟨line, []⟩ ∧
      s'.state = s.state ∧ s'.hist = hist ∧ s'.executed = s.executed := by
  obtain ⟨buf, hput, hrest, hchars⟩ := put_eq (s := { s with hist := hist }) line (k := 0)
    (by unfold size; unfold Editor.most at hline; omega)
  have hline' : (Editor.mk line []).line = line := List.append_nil _
  have hnonneg : 0 ≤ (Past.recalled line).result := Int.natCast_nonneg _
  have hresult : (Past.recalled line).result.toNat = line.length := Int.toNat_natCast _
  have hupdate : Cmdline.update
      (Cmdline.move { s with hist := hist, cmdline := buf, cmdlen := line.length } 0) =
      some
        { s with hist := hist, cmdline := buf, cmdlen := line.length, curpos := 0, cursav := 0 } :=
    update_eq (Nat.zero_le _) hline
  have heq : s.getHist dir = some
      { s with
        hist := hist
        cmdline := buf
        cmdlen := line.length
        curpos := 0#8 + BitVec.ofNat 8 line.length
        cursav := 0 } := by
    unfold Cmdline.getHist
    rw [hrecall, Option.bind_eq_bind, Option.bind_some]
    dsimp only
    have hchars : (Past.recalled line).chars = line := rfl
    rw [hchars, hput, Option.bind_eq_bind, Option.bind_some, if_pos hnonneg, hresult, hupdate,
      Option.bind_some]
    rfl
  refine ⟨_, heq, ⟨?_, ?_, ?_, ?_, ?_⟩, rfl, rfl, rfl⟩
  · show (0#8 + BitVec.ofNat 8 line.length).toNat = line.length
    rw [BitVec.zero_add, toNat_ofNat hline]
  · rw [hline']
  · rw [hline']
    exact hline
  · rw [hline']
    intro k hk
    rw [hchars k hk, Nat.zero_add]
  · exact (hrest _ (.inr (by rw [Nat.zero_add]; exact hline))).trans h.last

/-- Nothing is recalled. -/
theorem getHist_none {hist : Hist} {dir : Hist.Dir}
    (hrecall : s.hist.recallLine dir = some (⟨-1, []⟩, hist)) :
    s.getHist dir = some { s with hist := hist } := by
  unfold Cmdline.getHist
  rw [hrecall]
  rfl

/-! ## The end of a line -/

/-- A string in the buffer is read up to its end. -/
theorem string_eq {line : List (BitVec 8)} {room k : Nat}
    (hbegins : Begins (fun j => s.cmdline (k + j)) line) (hclean : ∀ c ∈ line, c ≠ 0)
    (hzero : s.cmdline (k + line.length) = 0) (hroom : line.length < room) :
    s.string room k = some line := by
  induction line generalizing room k with
  | nil =>
      obtain ⟨room, rfl⟩ := Nat.exists_eq_succ_of_ne_zero (Nat.ne_of_gt hroom)
      exact if_pos hzero
  | cons c line ih =>
      obtain ⟨room, rfl⟩ := Nat.exists_eq_succ_of_ne_zero (Nat.ne_of_gt (Nat.zero_lt_of_lt hroom))
      have hfirst : s.cmdline k = c := (Option.some.inj (hbegins 0 (Nat.succ_pos _))).symm
      have hrest := ih (k := k + 1)
        (fun j hj => by
          have hat := hbegins (j + 1) (Nat.succ_lt_succ hj)
          rw [List.getElem?_cons_succ] at hat
          dsimp only
          rw [hat, Nat.add_assoc, Nat.add_comm 1 j])
        (fun d hd => hclean d (List.mem_cons_of_mem c hd))
        (by rw [Nat.add_assoc, Nat.add_comm 1]; exact hzero) (Nat.lt_of_succ_lt_succ hroom)
      unfold string
      rw [hfirst, if_neg (hclean c List.mem_cons_self), hrest]
      rfl

theorem string_isSome {n room k : Nat} (hzero : s.cmdline (k + n) = 0) (hroom : n < room) :
    ∃ text, s.string room k = some text := by
  induction n generalizing room k with
  | zero =>
      obtain ⟨room, rfl⟩ := Nat.exists_eq_succ_of_ne_zero (Nat.ne_of_gt hroom)
      exact ⟨[], if_pos hzero⟩
  | succ n ih =>
      obtain ⟨room, rfl⟩ := Nat.exists_eq_succ_of_ne_zero (Nat.ne_of_gt (Nat.zero_lt_of_lt hroom))
      unfold string
      by_cases hend : s.cmdline k = 0
      · exact ⟨[], if_pos hend⟩
      · obtain ⟨text, htext⟩ := ih (k := k + 1)
          (by rw [Nat.add_assoc, Nat.add_comm 1]; exact hzero) (Nat.lt_of_succ_lt_succ hroom)
        rw [if_neg hend, htext]
        exact ⟨_, rfl⟩

/-- The executor finds the line. -/
theorem Shows.command (h : Shows s e) (hclean : ∀ c ∈ e.line, c ≠ 0) :
    s.command = some e.line := by
  have hlen := h.length
  have hin : s.cmdlen < size := Nat.lt_succ_of_le hlen
  have hcmdlen := h.cmdlen
  unfold Cmdline.command
  rw [set_eq hin, Option.bind_eq_bind, Option.bind_some]
  refine string_eq (fun k hk => ?_) hclean ?_ (by rw [← hcmdlen]; exact hin)
  · rw [h.begins k hk]
    dsimp only
    rw [Nat.zero_add, Function.update_of_ne (by omega)]
  · rw [Nat.zero_add, ← hcmdlen]
    exact Function.update_self _ _ _

theorem Shows.newline {hist : Hist} (h : Shows s e) (hclean : ∀ c ∈ e.line, c ≠ 0)
    (hsave : s.hist.save e.line = some hist) : ∃ s', s.newline = some s' ∧ Shows s' .empty ∧
      s'.state = s.state ∧ s'.hist = hist ∧ s'.executed = s.executed ++ [e.line] := by
  have hread : s.line = some e.line := by
    unfold line
    rw [if_pos (show s.cmdlen ≤ size from Nat.le_succ_of_le h.length), h.cmdlen, h.begins.eq_map]
  unfold Cmdline.newline
  rw [hread, Option.bind_eq_bind, Option.bind_some, hsave, h.command hclean, Option.bind_eq_bind,
    Option.bind_some, Option.bind_some]
  exact ⟨_, rfl, ⟨rfl, rfl, Nat.zero_le _, fun k hk => absurd hk (Nat.not_lt_zero k), rfl⟩, rfl,
    rfl, rfl⟩

end Cmdline

/-! ## The characters of the lines -/

/-- A line that the editor and the history can have. -/
structure Typed (line : List (BitVec 8)) : Prop where
  most : line.length ≤ Editor.most
  clean : ∀ c ∈ line, c ≠ 0

theorem typed_nil : Typed [] := ⟨Nat.zero_le _, nofun⟩

theorem Typed.legal {line : List (BitVec 8)} (h : Typed line) (hne : line ≠ []) :
    Hist.Legal line where
  pos := List.length_pos_iff.mpr hne
  le := Nat.le_trans h.most (by decide)

namespace Editor

theorem back_line (e : Editor) : e.back.line = e.line := by
  obtain ⟨before, after⟩ := e
  unfold back line
  rcases List.eq_nil_or_concat before with rfl | ⟨front, c, rfl⟩
  · rfl
  · dsimp only
    rw [List.concat_eq_append, List.getLast?_concat, List.dropLast_concat, List.append_assoc]
    rfl

theorem fwd_line (e : Editor) : e.fwd.line = e.line := by
  obtain ⟨before, after⟩ := e
  unfold fwd line
  cases after with
  | nil => rfl
  | cons c after =>
      dsimp only
      rw [List.append_assoc]
      rfl

theorem mem_insert {e : Editor} {ch c : BitVec 8} (hc : c ∈ (e.insert ch).line) :
    c ∈ e.line ∨ c = ch := by
  unfold insert at hc
  split at hc
  · unfold line at hc
    rw [List.mem_append, List.mem_append, List.mem_singleton] at hc
    rcases hc with (hbefore | rfl) | hafter
    · exact .inl (List.mem_append_left _ hbefore)
    · exact .inr rfl
    · exact .inl (List.mem_append_right _ hafter)
  · exact .inl hc

theorem mem_delete {e : Editor} {c : BitVec 8} (hc : c ∈ e.delete.line) : c ∈ e.line :=
  ((List.tail_sublist e.after).append_left e.before).mem hc

theorem mem_backspace {e : Editor} {c : BitVec 8} (hc : c ∈ e.backspace.line) : c ∈ e.line :=
  ((List.dropLast_sublist e.before).append_right e.after).mem hc

theorem mem_kill {e : Editor} {c : BitVec 8} (hc : c ∈ e.kill.line) : c ∈ e.line :=
  ((List.nil_sublist e.after).append_left e.before).mem hc

/-- Nothing is transposed at the end of the line. -/
theorem transpose_of_nil {e : Editor} (hafter : e.after = []) : e.transpose = e := by
  unfold transpose
  rw [hafter]
  split
  · next heq => exact absurd heq nofun
  · rfl

theorem mem_transpose {e : Editor} {c : BitVec 8} (hc : c ∈ e.transpose.line) : c ∈ e.line := by
  obtain ⟨before, after⟩ := e
  unfold transpose at hc
  split at hc
  · next first second rest hlast hcons =>
    obtain ⟨front, rfl⟩ := List.getLast?_eq_some_iff.mp hlast
    have hrest : after = second :: rest := hcons
    unfold line at hc ⊢
    rw [hrest]
    rw [List.dropLast_concat] at hc
    simp only [List.mem_append, List.mem_cons, List.not_mem_nil, or_false] at hc ⊢
    rcases hc with (hfront | hsecond) | hfirst | hafter
    · exact .inl (.inl hfront)
    · exact .inr (.inl hsecond)
    · exact .inl (.inr hfirst)
    · exact .inr (.inr hafter)
  · exact hc

end Editor

namespace Cmdline

variable {s : Cmdline} {t : Session} {e : Editor} {ch : BitVec 8}

/-- Only a character that can be printed is put into the line. -/
theorem isprint_of_decode {state : State} {c : BitVec 8} (h : (decode state ch).2 = .inschar c) :
    isprint c = true := by
  have hkeypad : ∀ key : Key, key ≠ .inschar c → (keypad ch key).2 ≠ .inschar c := by
    intro key hkey
    unfold keypad
    dsimp only
    split
    · exact hkey
    · exact nofun
  cases state with
  | none =>
      unfold decode plain at h
      dsimp only at h
      split at h
      case h_19 =>
        dsimp only at h
        split at h
        · next hprint =>
          injection h with heq
          rwa [heq] at hprint
        · exact absurd h nofun
      all_goals exact absurd h nofun
  | esc =>
      unfold decode at h
      dsimp only at h
      split at h <;> exact absurd h nofun
  | escBrk =>
      unfold decode at h
      dsimp only at h
      split at h <;> exact absurd h nofun
  | pfn =>
      unfold decode at h
      dsimp only at h
      split at h <;> exact absurd h nofun
  | home => exact absurd h (hkeypad .home nofun)
  | ins => exact absurd h (hkeypad .nothing nofun)
  | «end» => exact absurd h (hkeypad .end nofun)
  | pgUp => exact absurd h (hkeypad .nothing nofun)
  | pgDn => exact absurd h (hkeypad .nothing nofun)

theorem ne_zero_of_isprint (h : isprint ch = true) : ch ≠ 0 := by
  rintro rfl
  exact absurd h (by decide)

/-! ## Runs -/

/-- The editor of the console and the session. -/
structure Follows (s : Cmdline) (t : Session) : Prop where
  state : s.state = t.state
  executed : s.executed = t.executed
  hist : s.hist.Follows t.past
  shows : Shows s t.editor
  line : Typed t.editor.line
  lines : ∀ line ∈ t.past.lines, Typed line

/-- An operation changes only the line. -/
theorem Follows.edit {s' : Cmdline} (h : Follows s t) (hshows : Shows s' e) (hkeeps : Keeps s s')
    (hclean : ∀ c ∈ e.line, c ∈ t.editor.line) : Follows s' { t with editor := e } where
  state := hkeeps.state.trans h.state
  executed := hkeeps.executed.trans h.executed
  hist := by rw [hkeeps.hist]; exact h.hist
  shows := hshows
  line := ⟨hshows.most, fun c hc => h.line.clean c (hclean c hc)⟩
  lines := h.lines

/-- The cursor moves. -/
theorem Follows.go {pos : BitVec 8} (h : Follows s t) (hshows : Shows { s with curpos := pos } e)
    (hline : e.line = t.editor.line) :
    Follows { s with curpos := pos } { t with editor := e } :=
  h.edit hshows ⟨rfl, rfl, rfl⟩ fun _ hc => hline ▸ hc

theorem Follows.recallLine (h : Follows s t) (dir : Hist.Dir) :
    ∃ s', s.getHist dir = some s' ∧ Follows s' (t.recallLine dir) := by
  obtain ⟨hist, hrecall, hnext⟩ := h.hist.recallLine dir
  have hlines : ∀ line ∈ (t.past.recallLine dir).2.lines, Typed line := by
    rw [Hist.recall_lines]
    exact h.lines
  unfold Session.recallLine
  rcases Hist.recall_cases t.past dir with hnone | ⟨line, hsome, hmem⟩
  · rw [hnone] at hrecall ⊢
    refine ⟨_, getHist_none hrecall, ?_⟩
    rw [if_neg (show ¬ (0 : Int) ≤ -1 by decide)]
    exact ⟨h.state, h.executed, hnext,
      ⟨h.shows.curpos, h.shows.cmdlen, h.shows.most, h.shows.begins, h.shows.last⟩, h.line, hlines⟩
  · have htyped : Typed line := by
      rcases hmem with rfl | hmem
      · exact typed_nil
      · exact h.lines line hmem
    have hnonneg : 0 ≤ (Past.recalled line).result := Int.natCast_nonneg _
    have hline : (Editor.mk line []).line = line := List.append_nil _
    rw [hsome] at hrecall ⊢
    obtain ⟨s', hget, hshows, hstate, hhist, hexecuted⟩ := h.shows.getHist hrecall htyped.most
    refine ⟨s', hget, hstate.trans h.state, hexecuted.trans h.executed, ?_, ?_, ?_, hlines⟩
    · rw [hhist]
      exact hnext
    · rw [if_pos hnonneg]
      exact hshows
    · dsimp only
      rw [if_pos hnonneg]
      exact hline.symm ▸ htyped

theorem Follows.newline (h : Follows s t) : ∃ s', s.newline = some s' ∧ Follows s' t.newline := by
  have hsaved : ∃ hist, s.hist.save t.editor.line = some hist ∧
      hist.Follows (if t.editor.line = [] then t.past else t.past.save t.editor.line) ∧
      ∀ line ∈ (if t.editor.line = [] then t.past else t.past.save t.editor.line).lines,
        Typed line := by
    by_cases hempty : t.editor.line = []
    · rw [if_pos hempty, hempty]
      exact ⟨s.hist, rfl, h.hist, h.lines⟩
    · rw [if_neg hempty]
      obtain ⟨hist, hsave, hnext⟩ := h.hist.save (h.line.legal hempty)
      refine ⟨hist, hsave, hnext, fun line hline => ?_⟩
      rcases List.mem_append.mp hline with hold | hnew
      · exact h.lines line ((Past.drop_suffix _ _).subset hold)
      · rw [List.mem_singleton.mp hnew]
        exact h.line
  obtain ⟨hist, hsave, hnext, hlines⟩ := hsaved
  obtain ⟨s', hnew, hshows, hstate, hhist, hexecuted⟩ := h.shows.newline h.line.clean hsave
  refine ⟨s', hnew, hstate.trans h.state, ?_, ?_, hshows, typed_nil, hlines⟩
  · rw [hexecuted, h.executed]
    rfl
  · rw [hhist]
    exact hnext

/-- The transposition finds a character on each side of the cursor, or it finds behind the end
of the line a byte that is the same as the last character. -/
def Swappable (s : Cmdline) (e : Editor) : Prop :=
  e.before ≠ [] ∧ (e.after ≠ [] ∨ e.before.getLast? = some (s.cmdline s.cmdlen))

theorem Follows.transpose (h : Follows s t) (hswap : Swappable s t.editor) :
    ∃ s', s.transpose = some s' ∧ Follows s' { t with editor := t.editor.transpose } := by
  obtain ⟨hbefore, hside⟩ := hswap
  by_cases hafter : t.editor.after = []
  · have hsame := hside.resolve_left (not_not_intro hafter)
    obtain ⟨s', hdone, hshows, hkeeps⟩ := h.shows.transpose_end hbefore hafter hsame
    have hnone := Editor.transpose_of_nil hafter
    rw [hnone]
    exact ⟨s', hdone, h.edit hshows hkeeps fun _ hc => hc⟩
  · obtain ⟨s', hdone, hshows, hkeeps⟩ := h.shows.transpose hbefore hafter
    exact ⟨s', hdone, h.edit hshows hkeeps fun _ => Editor.mem_transpose⟩

/-- A key does in the buffer what it does in the abstract editor. -/
theorem Follows.act {key : Key} (h : Follows s t)
    (hprint : ∀ c, key = .inschar c → isprint c = true)
    (hswap : key = .transpose → Swappable s t.editor) :
    ∃ s', s.act key = some s' ∧ Follows s' (t.act key) := by
  cases key with
  | newline => exact h.newline
  | home => exact ⟨_, rfl, h.go h.shows.home rfl⟩
  | back =>
      refine ⟨_, rfl, h.edit h.shows.back ?_ fun c hc => Editor.back_line _ ▸ hc⟩
      split <;> exact ⟨rfl, rfl, rfl⟩
  | delchar =>
      obtain ⟨s', hdone, hshows, hkeeps⟩ := h.shows.delchar
      exact ⟨s', hdone, h.edit hshows hkeeps fun _ => Editor.mem_delete⟩
  | «end» => exact ⟨_, rfl, h.go h.shows.toEnd (line_toEnd _)⟩
  | fwd =>
      refine ⟨_, rfl, h.edit h.shows.fwd ?_ fun c hc => Editor.fwd_line _ ▸ hc⟩
      split <;> exact ⟨rfl, rfl, rfl⟩
  | eraseeol => exact ⟨_, rfl, h.edit h.shows.kill ⟨rfl, rfl, rfl⟩ fun _ => Editor.mem_kill⟩
  | redraw =>
      obtain ⟨s', hdone, hshows, hkeeps⟩ := h.shows.redraw
      exact ⟨s', hdone, h.edit hshows hkeeps fun c hc => line_toEnd _ ▸ hc⟩
  | down => exact h.recallLine .down
  | up => exact h.recallLine .up
  | transpose => exact h.transpose (hswap rfl)
  | clear => exact ⟨_, rfl, h.edit h.shows.clear ⟨rfl, rfl, rfl⟩ nofun⟩
  | backspace =>
      obtain ⟨s', hdone, hshows, hkeeps⟩ := h.shows.backspace
      exact ⟨s', hdone, h.edit hshows hkeeps fun _ => Editor.mem_backspace⟩
  | inschar c =>
      have hc : isprint c = true := hprint c rfl
      obtain ⟨s', hdone, hshows, hkeeps⟩ := h.shows.inschar hc
      refine ⟨s', hdone, hkeeps.state.trans h.state, hkeeps.executed.trans h.executed, ?_, hshows,
        ⟨hshows.most, fun d hd => ?_⟩, h.lines⟩
      · rw [hkeeps.hist]
        exact h.hist
      · rcases Editor.mem_insert hd with hold | rfl
        · exact h.line.clean d hold
        · exact ne_zero_of_isprint hc
  | dump =>
      obtain ⟨text, htext⟩ : ∃ text, s.string size 0 = some text :=
        string_isSome (n := Editor.most) (k := 0) h.shows.last (by decide)
      refine ⟨s, ?_, h⟩
      show (s.string size 0).map _ = _
      rw [htext]
      rfl
  | nothing => exact ⟨s, rfl, h⟩

/-- The escape sequence that has begun belongs to both. -/
theorem Follows.enter (h : Follows s t) (state : State) :
    Follows { s with state := state } { t with state := state } :=
  ⟨rfl, h.executed, h.hist,
    ⟨h.shows.curpos, h.shows.cmdlen, h.shows.most, h.shows.begins, h.shows.last⟩, h.line, h.lines⟩

theorem Follows.process (h : Follows s t)
    (hswap : (decode t.state ch).2 = .transpose → Swappable s t.editor) :
    ∃ s', s.process ch = some s' ∧ Follows s' (t.process ch) := by
  unfold Cmdline.process Session.process
  rw [h.state]
  exact (h.enter _).act (fun c hc => isprint_of_decode hc) hswap

theorem follows_init : ∃ s, init = some s ∧ Follows s Session.init := by
  have hlegal : Hist.Legal firstLine := ⟨by decide, by decide⟩
  obtain ⟨hist, hsave, hnext⟩ := Hist.follows_init.save hlegal
  unfold init
  rw [hsave]
  refine ⟨_, rfl, rfl, rfl, hnext, ⟨rfl, rfl, Nat.zero_le _, ?_, rfl⟩, typed_nil, ?_⟩
  · exact fun k hk => absurd hk (Nat.not_lt_zero k)
  · intro line hline
    rw [List.mem_singleton.mp hline]
    exact ⟨by decide, by decide⟩

/-- The editor of the console after `n` characters of the terminal.  It has no result when an
access has fallen outside of the buffer. -/
def console (i : Nat → BitVec 8) (n : Nat) : Option Cmdline :=
  run (fun s ch => s.bind (·.process ch)) init i n

/-- The session after `n` characters. -/
def session (i : Nat → BitVec 8) (n : Nat) : Session := run Session.process Session.init i n

/-- The lines that have been executed are those of the session.  A line that is executed now is
the line of the session too, and the cursor stays within it. -/
structure Agrees (s : Cmdline) (t : Session) : Prop where
  executed : s.executed = t.executed
  command : s.command = some t.editor.line
  cmdlen : s.cmdlen = t.editor.line.length
  curpos : s.curpos.toNat = t.editor.cursor
  le : s.curpos.toNat ≤ s.cmdlen

/-- No access has fallen outside of the buffer, and the editors agree. -/
def Edited (i : Nat → BitVec 8) (n : Nat) : Prop :=
  ∃ s, console i n = some s ∧ Agrees s (session i n)

/-- Character number `n` does not begin a transposition, or it finds what the transposition
needs. -/
def Sound (i : Nat → BitVec 8) (n : Nat) : Prop :=
  ∀ s, console i n = some s → (decode (session i n).state (i n)).2 = .transpose →
    Swappable s (session i n).editor

variable {i : Nat → BitVec 8}

theorem Follows.agrees (h : Follows s t) : Agrees s t where
  executed := h.executed
  command := h.shows.command h.line.clean
  cmdlen := h.shows.cmdlen
  curpos := h.shows.curpos
  le := h.shows.le

theorem follows_console {n : Nat} (hsound : ∀ k, k < n → Sound i k) :
    ∃ s, console i n = some s ∧ Follows s (session i n) := by
  induction n with
  | zero => exact follows_init
  | succ n ih =>
      obtain ⟨s, hs, hfollows⟩ := ih fun k hk => hsound k (Nat.lt_succ_of_lt hk)
      obtain ⟨s', hs', hnext⟩ := hfollows.process (hsound n (Nat.lt_succ_self n) s hs)
      refine ⟨s', ?_, hnext⟩
      unfold console at hs ⊢
      rw [run_succ, hs]
      exact hs'

/-- A string that is read from the buffer is in the buffer. -/
theorem getElem?_string {text : List (BitVec 8)} {room k j : Nat}
    (hstring : s.string room k = some text) (hj : j < text.length) :
    text[j]? = some (s.cmdline (k + j)) := by
  induction room generalizing text k j with
  | zero => exact absurd hstring nofun
  | succ room ih =>
      unfold string at hstring
      by_cases hend : s.cmdline k = 0
      · rw [if_pos hend, Option.some_inj] at hstring
        rw [← hstring] at hj
        exact absurd hj (Nat.not_lt_zero j)
      · rw [if_neg hend, Option.map_eq_some_iff] at hstring
        obtain ⟨rest, hrest, rfl⟩ := hstring
        cases j with
        | zero => rfl
        | succ j =>
            have hat := ih hrest (Nat.lt_of_succ_lt_succ hj)
            rw [Nat.add_assoc, Nat.add_comm 1 j] at hat
            rw [List.getElem?_cons_succ]
            exact hat

/-- A transposition that leaves the editors in agreement has found what it needs. -/
theorem Follows.swappable {s' : Cmdline} (h : Follows s t) (htranspose : s.transpose = some s')
    (hagrees : Agrees s' { t with editor := t.editor.transpose }) : Swappable s t.editor := by
  have hcur := h.shows.curpos
  have hle := h.shows.le
  have hlen := h.shows.length
  have hbefore : t.editor.before ≠ [] := by
    intro hnil
    rw [hnil] at hcur
    rw [transpose_none hcur] at htranspose
    exact absurd htranspose nofun
  refine ⟨hbefore, ?_⟩
  by_cases hafter : t.editor.after = []
  · refine .inr ?_
    have hpos : 0 < s.curpos.toNat := by
      rw [hcur]
      exact List.length_pos_iff.mpr hbefore
    have hnone := Editor.transpose_of_nil hafter
    have hline : t.editor.line = t.editor.before := by
      unfold Editor.line
      rw [hafter, List.append_nil]
    have hend : s.cmdlen = s.curpos.toNat := by
      rw [h.shows.cmdlen, hline, hcur]
    have hcommand := hagrees.command
    rw [transpose_eq hpos hle hlen, Option.some_inj] at htranspose
    rw [hnone, ← htranspose] at hcommand
    unfold command at hcommand
    rw [set_eq (show s.cmdlen < size from Nat.lt_succ_of_le hlen), Option.bind_eq_bind,
      Option.bind_some, hline] at hcommand
    have hat := getElem?_string hcommand (j := t.editor.before.length - 1) (by omega)
    rw [← List.getLast?_eq_getElem?, Nat.zero_add] at hat
    dsimp only at hat
    unfold swapped at hat
    rw [← hcur, Function.update_of_ne (by omega), Function.update_self, ← hend] at hat
    exact hat
  · exact .inl hafter

/-- As long as every transposition finds what it needs, and only so long, the lines that the
executor gets are those of the abstract editor, the cursor stays within the line and no access
falls outside of the buffer. -/
theorem edits_iff (i : Nat → BitVec 8) (n : Nat) :
    (∀ k, k ≤ n → Edited i k) ↔ ∀ k, k < n → Sound i k := by
  constructor
  · intro hedited k hk
    induction k using Nat.strong_induction_on with
    | _ k ih =>
        intro s hs hkey
        obtain ⟨r, hr, hfollows⟩ := follows_console fun j hj => ih j hj (Nat.lt_trans hj hk)
        obtain rfl : r = s := Option.some.inj (hr.symm.trans hs)
        obtain ⟨s', hs', hagrees⟩ := hedited (k + 1) hk
        have hstep : r.process (i k) = some s' := by
          unfold console at hs hs'
          rwa [run_succ, hs] at hs'
        have hagrees' : Agrees s' ((session i k).process (i k)) := hagrees
        unfold process at hstep
        unfold Session.process at hagrees'
        rw [hfollows.state, hkey] at hstep
        rw [hkey] at hagrees'
        have hnext : Follows { r with state := (decode (session i k).state (i k)).1 }
            { session i k with state := (decode (session i k).state (i k)).1 } :=
          hfollows.enter _
        exact hnext.swappable hstep hagrees'
  · intro hsound k hk
    obtain ⟨s, hs, hfollows⟩ := follows_console fun j hj => hsound j (Nat.lt_of_lt_of_le hj hk)
    exact ⟨s, hs, hfollows.agrees⟩

/-- The characters of a list, and then RETURNs. -/
def typing (chars : List (BitVec 8)) (k : Nat) : BitVec 8 := chars.getD k 0x0d

/-- `^T` on an empty line reads in front of the buffer.  Behind `ab` it puts the zero behind the
line in the place of the `b`, so that `a` is executed. -/
theorem edits_fails :
    console (typing [0x14]) 1 = none ∧
      ((console (typing [97, 98, 0x14]) 4).map (·.executed) = some [[97]] ∧
        (session (typing [97, 98, 0x14]) 4).executed = [[97, 98]]) ∧
      ¬ ∀ i n, Edited i n := by
  have hout : console (typing [0x14]) 1 = none := by decide +kernel
  refine ⟨hout, ⟨by decide +kernel, by decide +kernel⟩, fun hall => ?_⟩
  obtain ⟨s, hs, -⟩ := hall (typing [0x14]) 1
  rw [hout] at hs
  exact absurd hs nofun

end Cmdline

end KS10
